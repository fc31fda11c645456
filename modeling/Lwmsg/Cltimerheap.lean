/-
This file models the heap of authentication deadlines of `server/cltimerheap.c` and proves when it
stays in order.

The comparisons go through the macro `MIN`, which has no parentheses around its value. Compared with
`==` it does not answer whether the smaller slot is the one asked for: its first branch is the bare
index, and that is true exactly for an index other than 0. Where the index is that of the slot asked
for this makes no difference, and in `heapify_down` it is not. A client that should stop below the
root because it is due whole seconds earlier than the smaller client below it is swapped down
nevertheless, and `SiftSafe` describes the sifts in which this does not happen.
-/

import Lwmsg.BinaryHeap
import Mathlib.Data.Prod.Lex
import Mathlib.Order.Lattice
import Mathlib.Tactic.Ring

namespace Lwmsg

open BinaryHeap

/-! ### Clients and the heap -/

/-- `struct timespec`. -/
structure Timespec where
  tvSec : Int
  tvNsec : Int
  deriving DecidableEq, Repr

/-- Deadlines are ordered by seconds, then by nanoseconds. -/
instance : LinearOrder Timespec :=
  LinearOrder.lift' (fun time : Timespec => toLex (time.tvSec, time.tvNsec)) fun first second same => by
    cases first
    cases second
    cases same
    rfl

theorem Timespec.lt_iff {first second : Timespec} :
    first < second ↔ first.tvSec < second.tvSec ∨
      first.tvSec = second.tvSec ∧ first.tvNsec < second.tvNsec :=
  Prod.Lex.toLex_lt_toLex

/-- The address of a client. -/
abbrev ClientAddr := Nat

/-- `INVAL_TH_IND`. -/
@[simp] def invalThInd : Int := -1

/-- `DEF_CLTH_SIZE`. -/
@[simp] def defClthSize : Nat := 256

/-- The fields of `client` the heap uses. -/
structure TimedClient where
  timerheapIndex : Int
  authDeadline : Timespec
  deriving DecidableEq, Repr

/-- `cl_timerheap`. A slot of `clients` is `none` where the pointer is null. -/
structure ClTimerheap where
  clients : Nat → Option ClientAddr
  numClients : Nat
  numSlots : Nat

/-- The heap and the clients it points to. -/
structure TimerWorld where
  client : ClientAddr → TimedClient
  heap : ClTimerheap

/-- A heap without clients. -/
def emptyTimerheap (numSlots : Nat) : ClTimerheap where
  clients _ := none
  numClients := 0
  numSlots := numSlots

namespace TimerWorld

/-- `heap->clients[slot]->auth_deadline`. -/
def deadline (world : TimerWorld) (slot : Nat) : Option Timespec :=
  (world.heap.clients slot).map fun addr => (world.client addr).authDeadline

/-- `cl->timerheap_index = index`. -/
def setIndex (world : TimerWorld) (addr : ClientAddr) (index : Int) : TimerWorld :=
  { world with
    client := Function.update world.client addr { world.client addr with timerheapIndex := index } }

/-- `heap->num_clients = count`. -/
def setNumClients (world : TimerWorld) (count : Nat) : TimerWorld :=
  { world with heap := { world.heap with numClients := count } }

end TimerWorld

/-- `MIN(h, a, b)`. -/
def timerMin (world : TimerWorld) (a b : Nat) : Option Nat := do
  let deadlineA ← world.deadline a
  let deadlineB ← world.deadline b
  return if deadlineA.tvSec < deadlineB.tvSec then a
    else if deadlineA.tvSec ≠ deadlineB.tvSec then b
    else if deadlineA.tvNsec < deadlineB.tvNsec then a else b

/-- `MIN(h, a, b) == value` as the compiler reads it: `==` binds tighter than `?:`, so only the last
branches of the macro are compared, and the first one is the value `a` itself. -/
def timerMinEq (world : TimerWorld) (a b value : Nat) : Option Bool := do
  let deadlineA ← world.deadline a
  let deadlineB ← world.deadline b
  return if deadlineA.tvSec < deadlineB.tvSec then a ≠ 0
    else (if deadlineA.tvSec ≠ deadlineB.tvSec then b
      else if deadlineA.tvNsec < deadlineB.tvNsec then a else b) = value

/-- `swap(&heap->clients[a], &heap->clients[b])`. -/
def timerSwap (world : TimerWorld) (a b : Nat) : Option TimerWorld := do
  let first ← world.heap.clients a
  let second ← world.heap.clients b
  let firstIndex := (world.client first).timerheapIndex
  let secondIndex := (world.client second).timerheapIndex
  let clients := Function.update (Function.update world.heap.clients a (some second)) b (some first)
  let world := { world with heap := { world.heap with clients } }
  return (world.setIndex second firstIndex).setIndex first secondIndex

/-- `cl_timerheap_resize`: the new size is a `uint32_t`. The slots behind the old ones are null. -/
def clTimerheapResize (world : TimerWorld) : Option TimerWorld :=
  let newNumSlots := (world.heap.numSlots <<< 1) % 2 ^ 32
  if newNumSlots < world.heap.numSlots then none
  else some { world with heap := { world.heap with
    clients := fun slot =>
      if world.heap.numSlots ≤ slot ∧ slot < newNumSlots then none else world.heap.clients slot
    numSlots := newNumSlots } }

/-- `cl_timerheap_heapify_up`, with fuel for the turns of its loop. -/
def clTimerheapHeapifyUp : Nat → TimerWorld → Nat → Option TimerWorld
  | 0, _, _ => none
  | fuel + 1, world, index =>
    if 0 < index then do
      if ← timerMinEq world index ((index - 1) / 2) index then
        let world ← timerSwap world index ((index - 1) / 2)
        clTimerheapHeapifyUp fuel world ((index - 1) / 2)
      else
        return world
    else
      some world

/-- The smaller child that `cl_timerheap_heapify_down` compares a slot with. -/
def clTimerheapNewIndex (world : TimerWorld) (maxIndex index : Nat) : Option (Option Nat) :=
  let lchildIndex := (2 * index + 1) % 2 ^ 32
  let rchildIndex := (2 * index + 2) % 2 ^ 32
  let lchild := if lchildIndex ≤ maxIndex then world.heap.clients lchildIndex else none
  let rchild := if rchildIndex ≤ maxIndex then world.heap.clients rchildIndex else none
  if lchild.isNone ∧ rchild.isNone then some none
  else if rchild.isNone then some (some lchildIndex)
  else (timerMin world lchildIndex rchildIndex).map some

/-- `cl_timerheap_heapify_down`, with fuel for the turns of its loop. -/
def clTimerheapHeapifyDown (maxIndex : Nat) : Nat → TimerWorld → Nat → Option TimerWorld
  | 0, _, _ => none
  | fuel + 1, world, index => do
    match ← clTimerheapNewIndex world maxIndex index with
    | none => return world
    | some newIndex =>
      if ← timerMinEq world index newIndex newIndex then
        let world ← timerSwap world index newIndex
        clTimerheapHeapifyDown maxIndex fuel world newIndex
      else
        return world

/-- `cl_timerheap_add` at the time `now`: the answer, and the world left. -/
def clTimerheapAdd (world : TimerWorld) (cl : ClientAddr) (now : Timespec)
    (deadlineTimeLen : Int) : Option (Bool × TimerWorld) :=
  let room := if world.heap.numClients = world.heap.numSlots then clTimerheapResize world
    else some world
  match room with
  | none => some (false, world)
  | some world => do
    let index := world.heap.numClients % 2 ^ 32
    let world := world.setNumClients (world.heap.numClients + 1)
    let world := { world with
      heap := { world.heap with clients := Function.update world.heap.clients index (some cl) }
      client := Function.update world.client cl {
        timerheapIndex := index
        authDeadline := { now with tvSec := now.tvSec + deadlineTimeLen } } }
    let world ← clTimerheapHeapifyUp (index + 1) world index
    return (true, world)

/-- `cl_timerheap_peek`. -/
def clTimerheapPeek (world : TimerWorld) : Option ClientAddr :=
  if world.heap.numClients ≠ 0 then world.heap.clients 0 else none

/-- `cl_timerheap_pop`: the client taken, and the world left. -/
def clTimerheapPop (world : TimerWorld) : Option (Option ClientAddr × TimerWorld) :=
  if world.heap.numClients = 0 then some (none, world)
  else do
    let popped ← world.heap.clients 0
    let maxIndex := world.heap.numClients - 1
    let world := world.setNumClients maxIndex
    if maxIndex = 0 then
      return (some popped, world.setIndex popped invalThInd)
    else
      let world ← timerSwap world 0 (maxIndex % 2 ^ 32)
      let world := world.setIndex popped invalThInd
      let world ← clTimerheapHeapifyDown ((maxIndex - 1) % 2 ^ 32) maxIndex world 0
      return (some popped, world)

/-- `cl_timerheap_remove`. -/
def clTimerheapRemove (world : TimerWorld) (cl : ClientAddr) : Option TimerWorld :=
  if world.heap.numClients = 0 ∨ (world.client cl).timerheapIndex = invalThInd then some world
  else
    let index := ((world.client cl).timerheapIndex % 2 ^ 32).toNat
    let numClients := world.heap.numClients - 1
    let world := world.setNumClients numClients
    if numClients = 0 ∨ index = numClients then
      some (world.setIndex cl invalThInd)
    else do
      let world ← timerSwap world index numClients
      let world := world.setIndex cl invalThInd
      if index = 0 then
        clTimerheapHeapifyDown ((numClients - 1) % 2 ^ 32) numClients world index
      else if ← timerMinEq world index ((index - 1) / 2) index then
        clTimerheapHeapifyUp (index + 1) world index
      else
        clTimerheapHeapifyDown ((numClients - 1) % 2 ^ 32) numClients world index

/-! ### What the parts of a sift do -/

/-- The deadline of the client in a slot. -/
def TimerWorld.times (world : TimerWorld) (slot : Nat) : Timespec :=
  (world.deadline slot).getD ⟨0, 0⟩

/-- The slots below a count hold clients that know their slots, and no other client has one. -/
structure Indexed (world : TimerWorld) (count : Nat) : Prop where
  occupied : ∀ slot < count, ∃ addr, world.heap.clients slot = some addr ∧
    (world.client addr).timerheapIndex = slot
  absent : ∀ addr, (world.client addr).timerheapIndex = invalThInd ∨
    ∃ slot < count, world.heap.clients slot = some addr

/-- Nothing but the slots and the indices of the clients in them has changed. -/
structure SameClients (world next : TimerWorld) : Prop where
  deadline : ∀ addr, (next.client addr).authDeadline = (world.client addr).authDeadline
  numClients : next.heap.numClients = world.heap.numClients
  numSlots : next.heap.numSlots = world.heap.numSlots

theorem SameClients.refl (world : TimerWorld) : SameClients world world := ⟨fun _ => rfl, rfl, rfl⟩

theorem SameClients.trans {first second third : TimerWorld} (one : SameClients first second)
    (two : SameClients second third) : SameClients first third where
  deadline addr := (two.deadline addr).trans (one.deadline addr)
  numClients := two.numClients.trans one.numClients
  numSlots := two.numSlots.trans one.numSlots

section Parts

variable {world : TimerWorld} {count : Nat}

theorem Indexed.deadline (indexed : Indexed world count) {slot : Nat} (inside : slot < count) :
    world.deadline slot = some (world.times slot) := by
  obtain ⟨addr, found, _⟩ := indexed.occupied slot inside
  simp only [TimerWorld.times, TimerWorld.deadline, found, Option.map_some, Option.getD_some]

/-- Different slots hold different clients. -/
theorem Indexed.slot_unique (indexed : Indexed world count) {first second : Nat}
    (firstInside : first < count) (secondInside : second < count) {addr : ClientAddr}
    (firstHolds : world.heap.clients first = some addr)
    (secondHolds : world.heap.clients second = some addr) : first = second := by
  obtain ⟨firstAddr, firstFound, firstIndex⟩ := indexed.occupied first firstInside
  obtain ⟨secondAddr, secondFound, secondIndex⟩ := indexed.occupied second secondInside
  obtain rfl := Option.some.inj (firstFound.symm.trans firstHolds)
  obtain rfl := Option.some.inj (secondFound.symm.trans secondHolds)
  exact Int.ofNat_inj.mp (firstIndex.symm.trans secondIndex)

/-- `MIN` between two slots takes the first one only where it is due earlier. -/
theorem timerMin_eq (indexed : Indexed world count) {a b : Nat} (insideA : a < count)
    (insideB : b < count) :
    timerMin world a b = some (if world.times a < world.times b then a else b) := by
  simp only [timerMin, indexed.deadline insideA, indexed.deadline insideB, Option.bind_eq_bind,
    Option.bind_some, Option.pure_def, Timespec.lt_iff]
  congr 1
  split_ifs <;> first | rfl | omega

/-- `MIN(a, b) == a` answers what it seems to, as `a` is not 0. -/
theorem timerMinEq_first (indexed : Indexed world count) {a b : Nat} (insideA : a < count)
    (insideB : b < count) (positive : 0 < a) (different : b ≠ a) :
    timerMinEq world a b a = some (decide (world.times a < world.times b)) := by
  simp only [timerMinEq, indexed.deadline insideA, indexed.deadline insideB, Option.bind_eq_bind,
    Option.bind_some, Option.pure_def, Timespec.lt_iff]
  congr 1
  rw [Bool.eq_iff_iff]
  grind

/-- `MIN(a, b) == b` is true as well where `a` is due whole seconds earlier, unless it is 0. -/
theorem timerMinEq_second (indexed : Indexed world count) {a b : Nat} (insideA : a < count)
    (insideB : b < count) (different : a ≠ b) :
    timerMinEq world a b b =
      some (decide (¬ world.times a < world.times b ∨
        a ≠ 0 ∧ (world.times a).tvSec < (world.times b).tvSec)) := by
  simp only [timerMinEq, indexed.deadline insideA, indexed.deadline insideB, Option.bind_eq_bind,
    Option.bind_some, Option.pure_def, Timespec.lt_iff]
  congr 1
  rw [Bool.eq_iff_iff]
  grind

/-- Swapping two occupied slots swaps their deadlines and keeps the indices right. -/
theorem timerSwap_spec (indexed : Indexed world count) {a b : Nat} (insideA : a < count)
    (insideB : b < count) (different : a ≠ b) :
    ∃ next, timerSwap world a b = some next ∧ Indexed next count ∧
      next.times = swapped world.times a b ∧ SameClients world next ∧
      next.heap.clients a = world.heap.clients b ∧ next.heap.clients b = world.heap.clients a := by
  obtain ⟨first, firstFound, firstIndex⟩ := indexed.occupied a insideA
  obtain ⟨second, secondFound, secondIndex⟩ := indexed.occupied b insideB
  have apart : first ≠ second := by
    rintro rfl
    exact different (indexed.slot_unique insideA insideB firstFound secondFound)
  unfold timerSwap
  simp only [firstFound, secondFound, Option.bind_eq_bind, Option.bind_some, Option.pure_def,
    TimerWorld.setIndex, Function.update_of_ne apart, firstIndex, secondIndex]
  have unchanged (addr : ClientAddr) : (Function.update (Function.update world.client second
      { world.client second with timerheapIndex := a }) first
      { world.client first with timerheapIndex := b } addr).authDeadline =
        (world.client addr).authDeadline := by
    by_cases isFirst : addr = first
    · subst isFirst
      simp
    · by_cases isSecond : addr = second
      · subst isSecond
        simp [isFirst]
      · simp [isFirst, isSecond]
  refine ⟨_, rfl, ⟨fun slot inside => ?_, fun addr => ?_⟩, funext fun slot => ?_,
    ⟨fun addr => ?_, rfl, rfl⟩, ?_, ?_⟩
  · by_cases atB : slot = b
    · subst atB
      exact ⟨first, Function.update_self .., by simp⟩
    · by_cases atA : slot = a
      · subst atA
        exact ⟨second, by simp [atB], by simp [apart.symm]⟩
      · obtain ⟨addr, found, index⟩ := indexed.occupied slot inside
        have notFirst : addr ≠ first := by
          rintro rfl
          exact atA (indexed.slot_unique inside insideA found firstFound)
        have notSecond : addr ≠ second := by
          rintro rfl
          exact atB (indexed.slot_unique inside insideB found secondFound)
        exact ⟨addr, by simp [atA, atB, found], by simp [notFirst, notSecond, index]⟩
  · by_cases isFirst : addr = first
    · subst isFirst
      exact Or.inr ⟨b, insideB, Function.update_self ..⟩
    · by_cases isSecond : addr = second
      · subst isSecond
        exact Or.inr ⟨a, insideA, by simp [different]⟩
      · rcases indexed.absent addr with gone | ⟨slot, inside, found⟩
        · exact Or.inl (by simp [isFirst, isSecond, gone])
        · have notA : slot ≠ a := by
            rintro rfl
            exact isFirst (Option.some.inj (found.symm.trans firstFound))
          have notB : slot ≠ b := by
            rintro rfl
            exact isSecond (Option.some.inj (found.symm.trans secondFound))
          exact Or.inr ⟨slot, inside, by simp [notA, notB, found]⟩
  · by_cases atB : slot = b
    · subst atB
      rw [swapped_right]
      simp [TimerWorld.times, TimerWorld.deadline, firstFound]
    · by_cases atA : slot = a
      · subst atA
        rw [swapped_left]
        simp [TimerWorld.times, TimerWorld.deadline, secondFound, different, apart.symm]
      · rw [swapped_of_ne _ atA atB]
        simp [TimerWorld.times, TimerWorld.deadline, atA, atB, unchanged]
  · exact unchanged addr
  · simp [different]
  · simp

end Parts

/-! ### Sifting -/

/-- The slot below `index` that is due first. Of two due at the same time it is the right one. -/
def smallerChild (times : Nat → Timespec) (count index : Nat) : Nat :=
  if count ≤ 2 * index + 2 ∨ times (2 * index + 1) < times (2 * index + 2) then 2 * index + 1
  else 2 * index + 2

theorem smallerChild_isChild (times : Nat → Timespec) (count index : Nat) :
    IsChild (smallerChild times count index) index := by
  rw [isChild_iff, smallerChild]
  split_ifs
  · exact Or.inl rfl
  · exact Or.inr rfl

theorem smallerChild_lt {times : Nat → Timespec} {count index : Nat}
    (inside : 2 * index + 1 < count) : smallerChild times count index < count := by
  unfold smallerChild
  split_ifs <;> omega

theorem smallerChild_le {times : Nat → Timespec} {count index other : Nat}
    (isChild : IsChild other index) (inside : other < count) :
    times (smallerChild times count index) ≤ times other := by
  unfold smallerChild
  rcases isChild_iff.mp isChild with rfl | rfl <;> split_ifs with left
  · exact le_rfl
  · exact not_lt.mp fun before => left (Or.inr before)
  · rcases left with single | before
    · omega
    · exact before.le
  · exact le_rfl

/-- The sift of a client due at `moved` from a slot down is free of the fault of `MIN`: where the
client should stop above the smaller slot below it, it is in slot 0 or due in the same second. -/
inductive SiftSafe (times : Nat → Timespec) (count : Nat) (moved : Timespec) : Nat → Prop
  | leaf {index : Nat} (below : count ≤ 2 * index + 1) : SiftSafe times count moved index
  | root (inside : 1 < count) (before : moved < times (smallerChild times count 0)) :
      SiftSafe times count moved 0
  | stop {index : Nat} (inside : 2 * index + 1 < count)
      (before : moved < times (smallerChild times count index))
      (sameSecond : moved.tvSec = (times (smallerChild times count index)).tvSec) :
      SiftSafe times count moved index
  | move {index : Nat} (inside : 2 * index + 1 < count)
      (after : times (smallerChild times count index) ≤ moved)
      (below : SiftSafe times count moved (smallerChild times count index)) :
      SiftSafe times count moved index

/-- Only the slots below the index matter. -/
theorem SiftSafe.congr {times others : Nat → Timespec} {count : Nat} {moved : Timespec}
    {index : Nat} (safe : SiftSafe times count moved index)
    (same : ∀ slot, index < slot → slot < count → others slot = times slot) :
    SiftSafe others count moved index := by
  have sameChild {index : Nat} (inside : 2 * index + 1 < count)
      (same : ∀ slot, index < slot → slot < count → others slot = times slot) :
      smallerChild others count index = smallerChild times count index ∧
        others (smallerChild times count index) = times (smallerChild times count index) := by
    refine ⟨?_, same _ (smallerChild_isChild times count index).lt (smallerChild_lt inside)⟩
    unfold smallerChild
    rcases Nat.lt_or_ge (2 * index + 2) count with both | notBoth
    · rw [same _ (by omega) inside, same _ (by omega) both]
    · rw [if_pos (Or.inl notBoth), if_pos (Or.inl notBoth)]
  induction safe with
  | leaf leaf => exact .leaf leaf
  | root inside before =>
    obtain ⟨child, time⟩ := sameChild inside same
    exact .root inside (by rwa [child, time])
  | stop inside before sameSecond =>
    obtain ⟨child, time⟩ := sameChild inside same
    exact .stop inside (by rwa [child, time]) (by rwa [child, time])
  | move inside after _ inductionHypothesis =>
    obtain ⟨child, time⟩ := sameChild inside same
    refine .move inside (by rwa [child, time]) ?_
    rw [child]
    exact inductionHypothesis fun slot deeper =>
      same slot ((smallerChild_isChild times count _).lt.trans deeper)

section Sifting

variable {world : TimerWorld} {count : Nat}

/-- What a finished sift leaves. -/
structure Sifted (world next : TimerWorld) (count : Nat) : Prop where
  indexed : Indexed next count
  ordered : Ordered next.times count
  same : SameClients world next

/-- A turn of `heapify_up` below the root: it swaps a client with a later one above it. -/
theorem clTimerheapHeapifyUp_turn (indexed : Indexed world count) {index : Nat}
    (inside : index < count) (positive : 0 < index) (fuel : Nat) :
    clTimerheapHeapifyUp (fuel + 1) world index =
      if world.times index < world.times ((index - 1) / 2) then
        (timerSwap world index ((index - 1) / 2)).bind fun world =>
          clTimerheapHeapifyUp fuel world ((index - 1) / 2)
      else some world := by
  have above : (index - 1) / 2 < index := parent_lt positive
  simp only [clTimerheapHeapifyUp, if_pos positive,
    timerMinEq_first indexed inside (above.trans inside) positive above.ne, Option.bind_eq_bind,
    Option.bind_some, decide_eq_true_eq]
  rfl

/-- `heapify_up` repairs the order above a slot. -/
theorem clTimerheapHeapifyUp_sifted {fuel index : Nat} (indexed : Indexed world count)
    (order : UpOrder world.times count index) (inside : index < count) (enough : index < fuel) :
    ∃ next, clTimerheapHeapifyUp fuel world index = some next ∧ Sifted world next count := by
  induction fuel generalizing world index with
  | zero => exact absurd enough (Nat.not_lt_zero _)
  | succ fuel inductionHypothesis =>
    rcases Nat.eq_zero_or_pos index with rfl | positive
    · exact ⟨world, rfl, indexed, order.finish fun zero => absurd zero (Nat.lt_irrefl 0),
        SameClients.refl world⟩
    · have above : (index - 1) / 2 < index := parent_lt positive
      have parentInside := above.trans inside
      rw [clTimerheapHeapifyUp_turn indexed inside positive]
      by_cases before : world.times index < world.times ((index - 1) / 2)
      · obtain ⟨middle, swap, middleIndexed, middleTimes, middleSame, _⟩ :=
          timerSwap_spec indexed inside parentInside above.ne'
        have moved := order.move positive inside before
        rw [parent, ← middleTimes] at moved
        obtain ⟨next, sift, sifted⟩ :=
          inductionHypothesis middleIndexed moved parentInside (by omega)
        refine ⟨next, ?_, sifted.indexed, sifted.ordered, middleSame.trans sifted.same⟩
        rw [if_pos before, swap, Option.bind_some]
        exact sift
      · exact ⟨world, if_neg before, indexed, order.finish fun _ => not_lt.mp before,
          SameClients.refl world⟩

/-- The loop of `heapify_down` looks at the smaller child. No index wraps around: the heap never has
more than `2 ^ 31` slots, and a client was taken out before. -/
theorem clTimerheapNewIndex_eq (indexed : Indexed world count) (nonempty : 0 < count)
    (bounded : count < 2 ^ 31) {index : Nat} (inside : index < count) :
    clTimerheapNewIndex world (count - 1) index =
      some (if count ≤ 2 * index + 1 then none else some (smallerChild world.times count index)) := by
  have left : (2 * index + 1) % 2 ^ 32 = 2 * index + 1 := Nat.mod_eq_of_lt (by omega)
  have slot (child : Nat) (below : child < count) : (world.heap.clients child).isNone = false := by
    obtain ⟨addr, found, _⟩ := indexed.occupied child below
    rw [found, Option.isNone_some]
  unfold clTimerheapNewIndex
  rw [left]
  rcases Nat.lt_or_ge (2 * index + 2) count with both | notBoth
  · have right : (2 * index + 2) % 2 ^ 32 = 2 * index + 2 := Nat.mod_eq_of_lt (by omega)
    have leftIn : 2 * index + 1 ≤ count - 1 := by omega
    have rightIn : 2 * index + 2 ≤ count - 1 := by omega
    simp only [right, if_pos leftIn, if_pos rightIn, slot _ both,
      slot (2 * index + 1) (by omega), Bool.false_eq_true, and_self, if_false]
    have inner : ¬ count ≤ 2 * index + 1 := by omega
    rw [timerMin_eq indexed (by omega) both, if_neg inner, smallerChild, Option.map_some]
    simp only [Nat.not_le.mpr both, false_or]
  · have rightOut : ¬ (2 * index + 2) % 2 ^ 32 ≤ count - 1 := by omega
    simp only [if_neg rightOut, Option.isNone_none, and_true, if_true]
    by_cases leaf : count ≤ 2 * index + 1
    · have leftOut : ¬ 2 * index + 1 ≤ count - 1 := by omega
      rw [if_neg leftOut, if_pos leaf, if_pos Option.isNone_none]
    · have leftIn : 2 * index + 1 ≤ count - 1 := by omega
      rw [if_pos leftIn, slot (2 * index + 1) (by omega), if_neg Bool.false_ne_true,
        if_neg leaf, smallerChild, if_pos (Or.inl notBoth)]

theorem clTimerheapHeapifyDown_leaf (indexed : Indexed world count) (bounded : count < 2 ^ 31)
    {index : Nat} (inside : index < count) (leaf : count ≤ 2 * index + 1) (fuel : Nat) :
    clTimerheapHeapifyDown (count - 1) (fuel + 1) world index = some world := by
  simp only [clTimerheapHeapifyDown,
    clTimerheapNewIndex_eq indexed (Nat.zero_lt_of_lt inside) bounded inside, if_pos leaf]
  rfl

/-- A turn of `heapify_down` above a leaf: it swaps a client with the smaller one below it, also
where it should not. -/
theorem clTimerheapHeapifyDown_turn (indexed : Indexed world count) (bounded : count < 2 ^ 31)
    {index child : Nat} (inside : index < count) (inner : ¬ count ≤ 2 * index + 1)
    (childIs : smallerChild world.times count index = child) (fuel : Nat) :
    clTimerheapHeapifyDown (count - 1) (fuel + 1) world index =
      if ¬ world.times index < world.times child ∨
          index ≠ 0 ∧ (world.times index).tvSec < (world.times child).tvSec then
        (timerSwap world index child).bind fun world =>
          clTimerheapHeapifyDown (count - 1) fuel world child
      else some world := by
  have below := (smallerChild_isChild world.times count index).lt
  have childInside : smallerChild world.times count index < count :=
    smallerChild_lt (Nat.not_le.mp inner)
  rw [childIs] at below childInside
  simp only [clTimerheapHeapifyDown,
    clTimerheapNewIndex_eq indexed (Nat.zero_lt_of_lt inside) bounded inside, if_neg inner, childIs,
    timerMinEq_second indexed inside childInside below.ne, Option.bind_eq_bind, Option.bind_some,
    decide_eq_true_eq]
  rfl

/-- `heapify_down` repairs the order below a slot where the sift is safe. -/
theorem clTimerheapHeapifyDown_sifted {fuel index : Nat} (indexed : Indexed world count)
    (order : DownOrder world.times count index) (bounded : count < 2 ^ 31) (inside : index < count)
    (enough : count ≤ fuel + index) (safe : SiftSafe world.times count (world.times index) index) :
    ∃ next, clTimerheapHeapifyDown (count - 1) fuel world index = some next ∧
      Sifted world next count := by
  induction fuel generalizing world index with
  | zero => omega
  | succ fuel inductionHypothesis =>
    by_cases leaf : count ≤ 2 * index + 1
    · refine ⟨world, clTimerheapHeapifyDown_leaf indexed bounded inside leaf fuel, indexed,
        order.finish fun child isChild below => ?_, SameClients.refl world⟩
      rcases isChild_iff.mp isChild with rfl | rfl <;> omega
    · have turn := clTimerheapHeapifyDown_turn indexed bounded inside leaf rfl fuel
      have isChild := smallerChild_isChild world.times count index
      have childInside : smallerChild world.times count index < count :=
        smallerChild_lt (Nat.not_le.mp leaf)
      have smaller (other : Nat) (otherChild : IsChild other index) (otherInside : other < count) :=
        @smallerChild_le world.times _ _ _ otherChild otherInside
      generalize childIs : smallerChild world.times count index = child at *
      rw [turn]
      by_cases before : world.times index < world.times child
      · -- the client belongs here, and a safe sift stops
        have stops : ¬ (¬ world.times index < world.times child ∨
            index ≠ 0 ∧ (world.times index).tvSec < (world.times child).tvSec) := by
          rintro (notBefore | ⟨notRoot, earlier⟩)
          · exact notBefore before
          · cases safe with
            | leaf below => exact leaf below
            | root _ _ => exact notRoot rfl
            | stop _ _ sameSecond =>
              rw [childIs] at sameSecond
              omega
            | move _ after _ =>
              rw [childIs] at after
              exact absurd before (not_lt.mpr after)
        refine ⟨world, if_neg stops, indexed,
          order.finish fun other otherChild otherInside => ?_, SameClients.refl world⟩
        exact before.le.trans (smaller other otherChild otherInside)
      · have after := not_lt.mp before
        obtain ⟨middle, swap, middleIndexed, middleTimes, middleSame, _⟩ :=
          timerSwap_spec indexed inside childInside isChild.lt.ne
        have moved := order.move isChild childInside smaller after
        rw [← middleTimes] at moved
        have movedSafe : SiftSafe middle.times count (middle.times child) child := by
          have below : SiftSafe world.times count (world.times index) child := by
            cases safe with
            | leaf below => exact absurd below leaf
            | root _ early =>
              rw [childIs] at early
              exact absurd early before
            | stop _ early _ =>
              rw [childIs] at early
              exact absurd early before
            | move _ _ below =>
              rw [childIs] at below
              exact below
          rw [middleTimes, swapped_right]
          refine below.congr fun slot deeper _ => ?_
          exact swapped_of_ne _ (isChild.lt.trans deeper).ne' deeper.ne'
        obtain ⟨next, sift, sifted⟩ := inductionHypothesis middleIndexed moved childInside
          (by have := isChild.lt; omega) movedSafe
        refine ⟨next, ?_, sifted.indexed, sifted.ordered, middleSame.trans sifted.same⟩
        rw [if_pos (Or.inl before), swap, Option.bind_some]
        exact sift

end Sifting

/-! ### The operations -/

/-- The clients of a heap know their slots. Its size is a power of two. -/
structure TimerSlots (world : TimerWorld) : Prop where
  indexed : Indexed world world.heap.numClients
  room : world.heap.numClients ≤ world.heap.numSlots
  powerOfTwo : ∃ power ≤ 31, world.heap.numSlots = 2 ^ power

/-- The heap is in order and its clients know their slots. Its size is a power of two. -/
structure TimerInvariant (world : TimerWorld) : Prop where
  indexed : Indexed world world.heap.numClients
  ordered : Ordered world.times world.heap.numClients
  room : world.heap.numClients ≤ world.heap.numSlots
  powerOfTwo : ∃ power ≤ 31, world.heap.numSlots = 2 ^ power

theorem TimerInvariant.slots {world : TimerWorld} (invariant : TimerInvariant world) :
    TimerSlots world :=
  ⟨invariant.indexed, invariant.room, invariant.powerOfTwo⟩

theorem TimerSlots.bounded {world : TimerWorld} (slots : TimerSlots world) :
    world.heap.numClients ≤ 2 ^ 31 := by
  obtain ⟨power, atMost, numSlots⟩ := slots.powerOfTwo
  exact slots.room.trans (numSlots ▸ Nat.pow_le_pow_right (by omega) atMost)

theorem TimerInvariant.bounded {world : TimerWorld} (invariant : TimerInvariant world) :
    world.heap.numClients ≤ 2 ^ 31 :=
  invariant.slots.bounded

section SetIndex

variable {world : TimerWorld} {count : Nat} {addr : ClientAddr} {index : Int}

@[simp] theorem setIndex_heap : (world.setIndex addr index).heap = world.heap := rfl

@[simp] theorem setIndex_authDeadline (other : ClientAddr) :
    ((world.setIndex addr index).client other).authDeadline = (world.client other).authDeadline := by
  by_cases same : other = addr
  · subst same
    simp [TimerWorld.setIndex]
  · simp [TimerWorld.setIndex, same]

@[simp] theorem setIndex_times : (world.setIndex addr index).times = world.times := by
  funext slot
  simp only [TimerWorld.times, TimerWorld.deadline, setIndex_heap, setIndex_authDeadline]

@[simp] theorem setNumClients_times : (world.setNumClients count).times = world.times := rfl

/-- The client in the last slot loses its index and with it its place. -/
theorem Indexed.removeLast (indexed : Indexed world (count + 1))
    (last : world.heap.clients count = some addr) :
    Indexed (world.setIndex addr invalThInd) count where
  occupied slot inside := by
    obtain ⟨other, found, otherIndex⟩ := indexed.occupied slot (by omega)
    have different : other ≠ addr := by
      rintro rfl
      exact inside.ne (indexed.slot_unique (by omega) (by omega) found last)
    exact ⟨other, found, by simp [TimerWorld.setIndex, different, otherIndex]⟩
  absent other := by
    by_cases same : other = addr
    · subst same
      exact Or.inl (by simp [TimerWorld.setIndex])
    · rcases indexed.absent other with gone | ⟨slot, inside, found⟩
      · exact Or.inl (by simpa [TimerWorld.setIndex, same] using gone)
      · have notLast : slot ≠ count := by
          rintro rfl
          exact same (Option.some.inj (found.symm.trans last))
        exact Or.inr ⟨slot, by omega, found⟩

end SetIndex

/-- `cl_timerheap_resize` doubles the heap up to `2 ^ 31` slots and moves nothing. -/
theorem clTimerheapResize_slots {world next : TimerWorld} (slots : TimerSlots world)
    (resize : clTimerheapResize world = some next) :
    TimerSlots next ∧ next.heap.numClients = world.heap.numClients ∧
      world.heap.numSlots < next.heap.numSlots ∧ next.client = world.client ∧
      ∀ slot < world.heap.numClients, next.heap.clients slot = world.heap.clients slot := by
  obtain ⟨power, atMost, numSlots⟩ := slots.powerOfTwo
  unfold clTimerheapResize at resize
  simp only at resize
  split at resize
  · cases resize
  · next noWrap =>
    obtain rfl := Option.some.inj resize
    have double : world.heap.numSlots <<< 1 = 2 ^ (power + 1) := by
      rw [Nat.shiftLeft_eq, numSlots, Nat.pow_one, ← Nat.pow_succ]
    have notLast : power + 1 ≤ 31 := by
      rcases Nat.lt_or_ge power 31 with less | more
      · omega
      · obtain rfl : power = 31 := by omega
        rw [double, numSlots] at noWrap
        exact absurd (by decide) noWrap
    have small : 2 ^ (power + 1) < 2 ^ 32 := Nat.pow_lt_pow_right (by omega) (by omega)
    have newSlots : (world.heap.numSlots <<< 1) % 2 ^ 32 = 2 ^ (power + 1) := by
      rw [double, Nat.mod_eq_of_lt small]
    have grows : world.heap.numSlots < 2 ^ (power + 1) := by
      rw [numSlots]
      exact Nat.pow_lt_pow_right (by omega) (by omega)
    have kept {slot : Nat} (inside : slot < world.heap.numClients) :
        ¬ (world.heap.numSlots ≤ slot ∧ slot < 2 ^ (power + 1)) := fun behind =>
      absurd (inside.trans_le slots.room) (not_lt.mpr behind.1)
    refine ⟨⟨⟨fun slot inside => ?_, fun addr => ?_⟩, ?_, power + 1, notLast, newSlots⟩, rfl,
      by simpa only [newSlots] using grows, rfl, fun slot inside => ?_⟩
    · obtain ⟨addr, found, index⟩ := slots.indexed.occupied slot inside
      exact ⟨addr, by simpa only [newSlots, if_neg (kept inside)] using found, index⟩
    · refine (slots.indexed.absent addr).imp id ?_
      rintro ⟨slot, inside, found⟩
      exact ⟨slot, inside, by simpa only [newSlots, if_neg (kept inside)] using found⟩
    · simp only [newSlots]
      exact slots.room.trans grows.le
    · simp only [newSlots, if_neg (kept inside)]

theorem clTimerheapResize_invariant {world next : TimerWorld} (invariant : TimerInvariant world)
    (resize : clTimerheapResize world = some next) :
    TimerInvariant next ∧ next.heap.numClients = world.heap.numClients ∧
      world.heap.numSlots < next.heap.numSlots ∧ next.client = world.client := by
  obtain ⟨slots, numClients, grows, client, kept⟩ := clTimerheapResize_slots invariant.slots resize
  refine ⟨⟨slots.indexed, ?_, slots.room, slots.powerOfTwo⟩, numClients, grows, client⟩
  rw [numClients]
  refine invariant.ordered.congr fun slot inside => ?_
  simp only [TimerWorld.times, TimerWorld.deadline, kept slot inside, client]

/-- A heap with a client more behind the others, before it is sifted up. -/
def TimerWorld.placeLast (world : TimerWorld) (cl : ClientAddr) (time : Timespec) : TimerWorld where
  client := Function.update world.client cl ⟨world.heap.numClients, time⟩
  heap := { world.heap with
    clients := Function.update world.heap.clients world.heap.numClients (some cl)
    numClients := world.heap.numClients + 1 }

theorem Indexed.notNew {world : TimerWorld} {count slot : Nat} {cl addr : ClientAddr}
    (indexed : Indexed world count) (outside : (world.client cl).timerheapIndex = invalThInd)
    (inside : slot < count) (found : world.heap.clients slot = some addr) : addr ≠ cl := by
  rintro rfl
  obtain ⟨other, otherFound, otherIndex⟩ := indexed.occupied slot inside
  obtain rfl := Option.some.inj (otherFound.symm.trans found)
  rw [otherIndex, invalThInd] at outside
  omega

theorem Indexed.placeLast {world : TimerWorld} {cl : ClientAddr}
    (indexed : Indexed world world.heap.numClients)
    (outside : (world.client cl).timerheapIndex = invalThInd) (time : Timespec) :
    Indexed (world.placeLast cl time) (world.heap.numClients + 1) where
  occupied slot inside := by
    by_cases last : slot = world.heap.numClients
    · exact ⟨cl, by simp [TimerWorld.placeLast, last], by simp [TimerWorld.placeLast, last]⟩
    · obtain ⟨addr, found, index⟩ := indexed.occupied slot (by omega)
      have other := indexed.notNew outside (by omega) found
      exact ⟨addr, by simp [TimerWorld.placeLast, last, found],
        by simp [TimerWorld.placeLast, other, index]⟩
  absent addr := by
    by_cases new : addr = cl
    · exact Or.inr ⟨world.heap.numClients, by omega, by simp [TimerWorld.placeLast, new]⟩
    · refine (indexed.absent addr).imp (fun gone => by simpa [TimerWorld.placeLast, new]) ?_
      rintro ⟨slot, inside, found⟩
      exact ⟨slot, by omega, by simp [TimerWorld.placeLast, inside.ne, found]⟩

/-- A heap that has room for a client sifts it up from the place behind the others. -/
theorem clTimerheapAdd_eq {world larger : TimerWorld} {cl : ClientAddr} (now : Timespec)
    (deadlineTimeLen : Int) (slots : TimerSlots larger)
    (free : larger.heap.numClients < larger.heap.numSlots)
    (room : (if world.heap.numClients = world.heap.numSlots then clTimerheapResize world
      else some world) = some larger) :
    clTimerheapAdd world cl now deadlineTimeLen =
      (clTimerheapHeapifyUp (larger.heap.numClients + 1)
        (larger.placeLast cl { now with tvSec := now.tvSec + deadlineTimeLen })
        larger.heap.numClients).map fun next => (true, next) := by
  obtain ⟨power, atMost, numSlots⟩ := slots.powerOfTwo
  have bounded : larger.heap.numSlots ≤ 2 ^ 31 :=
    numSlots ▸ Nat.pow_le_pow_right (by omega) atMost
  have index : larger.heap.numClients % 2 ^ 32 = larger.heap.numClients :=
    Nat.mod_eq_of_lt (by omega)
  unfold clTimerheapAdd
  simp only [room, TimerWorld.setNumClients, index]
  rw [Option.map_eq_bind]
  rfl

/-- `cl_timerheap_add` keeps the heap in order. -/
theorem clTimerheapAdd_invariant {world : TimerWorld} {cl : ClientAddr} (now : Timespec)
    (deadlineTimeLen : Int) (invariant : TimerInvariant world)
    (outside : (world.client cl).timerheapIndex = invalThInd) :
    ∃ answer next, clTimerheapAdd world cl now deadlineTimeLen = some (answer, next) ∧
      TimerInvariant next := by
  have roomy : (if world.heap.numClients = world.heap.numSlots then clTimerheapResize world
      else some world) = none ∨ ∃ larger, (if world.heap.numClients = world.heap.numSlots then
        clTimerheapResize world else some world) = some larger ∧ TimerInvariant larger ∧
        larger.heap.numClients < larger.heap.numSlots ∧ larger.client = world.client := by
    by_cases full : world.heap.numClients = world.heap.numSlots
    · rw [if_pos full]
      cases resize : clTimerheapResize world with
      | none => exact Or.inl rfl
      | some larger =>
        obtain ⟨kept, numClients, grows, client⟩ := clTimerheapResize_invariant invariant resize
        exact Or.inr ⟨larger, rfl, kept, by omega, client⟩
    · rw [if_neg full]
      exact Or.inr ⟨world, rfl, invariant, lt_of_le_of_ne invariant.room full, rfl⟩
  rcases roomy with refused | ⟨larger, room, kept, free, client⟩
  · exact ⟨false, world, by rw [clTimerheapAdd, refused], invariant⟩
  · rw [← client] at outside
    rw [clTimerheapAdd_eq now deadlineTimeLen kept.slots free room]
    generalize { now with tvSec := now.tvSec + deadlineTimeLen } = time
    have indexed := kept.indexed.placeLast outside time
    have ordered : Ordered (larger.placeLast cl time).times larger.heap.numClients := by
      refine kept.ordered.congr fun slot inside => ?_
      obtain ⟨addr, found, _⟩ := kept.indexed.occupied slot inside
      have other := kept.indexed.notNew outside inside found
      simp [TimerWorld.times, TimerWorld.deadline, TimerWorld.placeLast, inside.ne, found, other]
    obtain ⟨next, sift, sifted⟩ := clTimerheapHeapifyUp_sifted indexed ordered.upOrder_last
      (Nat.lt_succ_self _) (Nat.lt_succ_self _)
    have numClients : next.heap.numClients = larger.heap.numClients + 1 := sifted.same.numClients
    have numSlots : next.heap.numSlots = larger.heap.numSlots := sifted.same.numSlots
    refine ⟨true, next, by rw [sift]; rfl, ?_, ?_, ?_, ?_⟩
    · rw [numClients]
      exact sifted.indexed
    · rw [numClients]
      exact sifted.ordered
    · rw [numClients, numSlots]
      exact free
    · rw [numSlots]
      exact kept.powerOfTwo

/-- The condition under which an operation does not run into the fault of `MIN`: the last client,
which takes the place of the one that leaves, is sifted up or its sift down is safe. -/
def PopSafe (world : TimerWorld) : Prop :=
  SiftSafe world.times (world.heap.numClients - 1) (world.times (world.heap.numClients - 1)) 0

/-- See `PopSafe`. -/
def RemoveSafe (world : TimerWorld) (cl : ClientAddr) : Prop :=
  ∀ index : Nat, (world.client cl).timerheapIndex = index → index < world.heap.numClients - 1 →
    (0 < index → world.times (parent index) ≤ world.times (world.heap.numClients - 1)) →
    SiftSafe world.times (world.heap.numClients - 1) (world.times (world.heap.numClients - 1)) index

/-- What taking the client out of a slot leaves before the sift: the last client in its place. -/
theorem TimerInvariant.takeOut {world : TimerWorld} {index count : Nat} {cl : ClientAddr}
    (invariant : TimerInvariant world) (nonempty : world.heap.numClients = count + 1)
    (inside : index < count) (found : world.heap.clients index = some cl) :
    ∃ middle, timerSwap (world.setNumClients count) index count = some middle ∧
      Indexed (middle.setIndex cl invalThInd) count ∧
      (middle.setIndex cl invalThInd).times = swapped world.times index count ∧
      (middle.setIndex cl invalThInd).heap.numClients = count ∧
      (middle.setIndex cl invalThInd).heap.numSlots = world.heap.numSlots := by
  have indexed : Indexed (world.setNumClients count) (count + 1) := by
    have indexed := invariant.indexed
    rw [nonempty] at indexed
    exact ⟨indexed.occupied, indexed.absent⟩
  obtain ⟨middle, swap, middleIndexed, times, same, _, last⟩ :=
    timerSwap_spec indexed (inside.trans (Nat.lt_succ_self _)) (Nat.lt_succ_self _) inside.ne
  refine ⟨middle, swap, middleIndexed.removeLast (last.trans found), ?_, same.numClients,
    same.numSlots⟩
  rw [setIndex_times, times, setNumClients_times]

/-- A finished sift restores the invariant. -/
theorem TimerInvariant.ofSifted {world middle next : TimerWorld} {count : Nat}
    (invariant : TimerInvariant world) (fewer : count ≤ world.heap.numClients)
    (numClients : middle.heap.numClients = count)
    (numSlots : middle.heap.numSlots = world.heap.numSlots) (sifted : Sifted middle next count) :
    TimerInvariant next where
  indexed := by
    rw [sifted.same.numClients, numClients]
    exact sifted.indexed
  ordered := by
    rw [sifted.same.numClients, numClients]
    exact sifted.ordered
  room := by
    rw [sifted.same.numClients, numClients, sifted.same.numSlots, numSlots]
    exact fewer.trans invariant.room
  powerOfTwo := by
    rw [sifted.same.numSlots, numSlots]
    exact invariant.powerOfTwo

/-- Taking out the client in the last slot needs no sift. -/
theorem TimerInvariant.dropLast {world : TimerWorld} {count : Nat} {cl : ClientAddr}
    (invariant : TimerInvariant world) (nonempty : world.heap.numClients = count + 1)
    (found : world.heap.clients count = some cl) :
    TimerInvariant ((world.setNumClients count).setIndex cl invalThInd) := by
  have indexed : Indexed (world.setNumClients count) (count + 1) := by
    have indexed := invariant.indexed
    rw [nonempty] at indexed
    exact ⟨indexed.occupied, indexed.absent⟩
  refine ⟨indexed.removeLast found, ?_, ?_, invariant.powerOfTwo⟩
  · rw [setIndex_times]
    exact invariant.ordered.mono (by rw [nonempty]; exact Nat.le_succ _)
  · have room := invariant.room
    rw [nonempty] at room
    exact (Nat.le_succ count).trans room

/-- `cl_timerheap_pop` answers the first client, and keeps the heap in order where it is safe. -/
theorem clTimerheapPop_invariant {world : TimerWorld} (invariant : TimerInvariant world)
    (safe : PopSafe world) :
    ∃ next, clTimerheapPop world = some (clTimerheapPeek world, next) ∧ TimerInvariant next := by
  unfold clTimerheapPop clTimerheapPeek
  rcases Nat.eq_zero_or_pos world.heap.numClients with empty | positive
  · refine ⟨world, ?_, invariant⟩
    rw [if_pos empty, if_neg (not_not_intro empty)]
  · obtain ⟨count, numClients⟩ : ∃ count, world.heap.numClients = count + 1 :=
      ⟨world.heap.numClients - 1, by omega⟩
    obtain ⟨cl, found, _⟩ := invariant.indexed.occupied 0 positive
    rw [if_neg positive.ne', if_pos positive.ne']
    simp only [found, numClients, Nat.add_sub_cancel, Option.bind_eq_bind, Option.bind_some]
    rcases Nat.eq_zero_or_pos count with rfl | more
    · exact ⟨_, rfl, invariant.dropLast numClients found⟩
    · have bounded := invariant.bounded
      rw [numClients] at bounded
      have noWrap : count % 2 ^ 32 = count := Nat.mod_eq_of_lt (by omega)
      have noWrapLast : (count - 1) % 2 ^ 32 = count - 1 := Nat.mod_eq_of_lt (by omega)
      obtain ⟨middle, swap, indexed, times, middleClients, middleSlots⟩ :=
        invariant.takeOut numClients more found
      have ordered := invariant.ordered
      rw [numClients] at ordered
      have order := ordered.downOrder_swapped more fun zero => absurd zero (Nat.lt_irrefl 0)
      rw [← times] at order
      have siftSafe : SiftSafe (middle.setIndex cl invalThInd).times count
          ((middle.setIndex cl invalThInd).times 0) 0 := by
        rw [PopSafe, numClients, Nat.add_sub_cancel] at safe
        rw [times, swapped_left]
        exact safe.congr fun slot deeper inside => swapped_of_ne _ deeper.ne' inside.ne
      obtain ⟨next, sift, sifted⟩ := @clTimerheapHeapifyDown_sifted _ _ count _ indexed order
        (by omega) more (by omega) siftSafe
      refine ⟨next, ?_, invariant.ofSifted (by omega) middleClients middleSlots sifted⟩
      rw [if_neg more.ne', noWrap, swap, noWrapLast]
      simp only [Option.bind_some, sift]
      rfl

/-- `cl_timerheap_remove` keeps the heap in order where it is safe. -/
theorem clTimerheapRemove_invariant {world : TimerWorld} {cl : ClientAddr}
    (invariant : TimerInvariant world) (safe : RemoveSafe world cl) :
    ∃ next, clTimerheapRemove world cl = some next ∧ TimerInvariant next := by
  unfold clTimerheapRemove
  by_cases nothing : world.heap.numClients = 0 ∨ (world.client cl).timerheapIndex = invalThInd
  · exact ⟨world, by rw [if_pos nothing], invariant⟩
  · rw [if_neg nothing]
    rw [not_or] at nothing
    obtain ⟨count, numClients⟩ : ∃ count, world.heap.numClients = count + 1 :=
      ⟨world.heap.numClients - 1, by omega⟩
    obtain ⟨index, inside, found⟩ := (invariant.indexed.absent cl).resolve_left nothing.2
    obtain ⟨other, otherFound, isIndex⟩ := invariant.indexed.occupied index inside
    obtain rfl := Option.some.inj (otherFound.symm.trans found)
    have bounded := invariant.bounded
    rw [numClients] at bounded inside
    have noWrap : ((index : Int) % 2 ^ 32).toNat = index := by omega
    have noWrapLast : (count - 1) % 2 ^ 32 = count - 1 := Nat.mod_eq_of_lt (by omega)
    simp only [isIndex, noWrap, numClients, Nat.add_sub_cancel, noWrapLast]
    by_cases last : count = 0 ∨ index = count
    · rw [if_pos last]
      obtain rfl : index = count := by omega
      exact ⟨_, rfl, invariant.dropLast numClients found⟩
    · rw [if_neg last]
      have before : index < count := by omega
      obtain ⟨middle, swap, indexed, times, middleClients, middleSlots⟩ :=
        invariant.takeOut numClients before found
      have ordered := invariant.ordered
      rw [numClients] at ordered
      simp only [swap, Option.bind_eq_bind, Option.bind_some]
      have sinks (notBefore : 0 < index → world.times (parent index) ≤ world.times count) :
          ∃ next, clTimerheapHeapifyDown (count - 1) count (middle.setIndex other invalThInd)
            index = some next ∧ TimerInvariant next := by
        have siftSafe := safe index isIndex (by omega) (by
          rwa [numClients, Nat.add_sub_cancel])
        rw [numClients, Nat.add_sub_cancel] at siftSafe
        have order := ordered.downOrder_swapped before (by
          intro positive
          rw [swapped_left, swapped_of_ne _ (parent_lt positive).ne
            ((parent_lt positive).trans before).ne]
          exact notBefore positive)
        rw [← times] at order
        obtain ⟨next, sift, sifted⟩ := @clTimerheapHeapifyDown_sifted _ _ count _ indexed order
          (by omega) before (by omega) (by
            rw [times, swapped_left]
            exact siftSafe.congr fun slot deeper slotIn => swapped_of_ne _ deeper.ne' slotIn.ne)
        exact ⟨next, sift, invariant.ofSifted (by omega) middleClients middleSlots sifted⟩
      rcases Nat.eq_zero_or_pos index with rfl | positive
      · rw [if_pos rfl]
        exact sinks fun zero => absurd zero (Nat.lt_irrefl 0)
      · have above : (index - 1) / 2 < index := parent_lt positive
        rw [if_neg positive.ne', timerMinEq_first indexed before (above.trans before) positive
          above.ne, Option.bind_some]
        simp only [decide_eq_true_eq, times]
        by_cases earlier : swapped world.times index count index <
            swapped world.times index count ((index - 1) / 2)
        · have order := ordered.upOrder_swapped before earlier
          rw [← times] at order
          obtain ⟨next, sift, sifted⟩ :=
            clTimerheapHeapifyUp_sifted indexed order before (Nat.lt_succ_self _)
          refine ⟨next, by rw [if_pos earlier]; exact sift, ?_⟩
          exact invariant.ofSifted (by omega) middleClients middleSlots sifted
        · rw [if_neg earlier]
          rw [swapped_left, swapped_of_ne _ above.ne (above.trans before).ne] at earlier
          exact sinks fun _ => not_lt.mp earlier

/-! ### Runs -/

/-- What happens to a heap. -/
inductive TimerEvent
  | clock (now : Timespec)
  | add (cl : ClientAddr)
  | remove (cl : ClientAddr)
  | pop
  deriving DecidableEq, Repr

/-- The heap and the monotonic clock. -/
structure ClockedWorld where
  now : Timespec
  world : TimerWorld

/-- One operation. The worker and the registration thread add a client once, after its handshake,
and always with the same time to authenticate. -/
def TimerEvent.perform (deadlineTimeLen : Int) (state : ClockedWorld) :
    TimerEvent → Option ClockedWorld
  | .clock later => if state.now ≤ later then some { state with now := later } else none
  | .add cl =>
    if (state.world.client cl).timerheapIndex = invalThInd then
      (clTimerheapAdd state.world cl state.now deadlineTimeLen).map fun result =>
        { state with world := result.2 }
    else none
  | .remove cl => (clTimerheapRemove state.world cl).map fun world => { state with world }
  | .pop => (clTimerheapPop state.world).map fun result => { state with world := result.2 }

/-- What the callers promise: the clock does not go back, and a client is not added twice. -/
def TimerEvent.Promised (state : ClockedWorld) : TimerEvent → Prop
  | .clock later => state.now ≤ later
  | .add cl => (state.world.client cl).timerheapIndex = invalThInd
  | .remove _ | .pop => True

/-- Whether an operation is safe from the fault of `MIN`. -/
def TimerEvent.Safe (world : TimerWorld) : TimerEvent → Prop
  | .clock _ | .add _ => True
  | .remove cl => RemoveSafe world cl
  | .pop => PopSafe world

/-- A fresh heap of `DEF_CLTH_SIZE` slots. -/
def freshTimerheap (now : Timespec) (client : ClientAddr → TimedClient) : ClockedWorld :=
  ⟨now, ⟨client, emptyTimerheap defClthSize⟩⟩

/-- A sequence of operations on a fresh heap, with a condition on each of them. -/
inductive TimerRun (deadlineTimeLen : Int) (allowed : TimerWorld → TimerEvent → Prop) :
    List TimerEvent → ClockedWorld → Prop
  | start (now : Timespec) (client : ClientAddr → TimedClient)
      (outside : ∀ cl, (client cl).timerheapIndex = invalThInd) :
      TimerRun deadlineTimeLen allowed [] (freshTimerheap now client)
  | snoc {events : List TimerEvent} {event : TimerEvent} {state next : ClockedWorld}
      (run : TimerRun deadlineTimeLen allowed events state) (allow : allowed state.world event)
      (performed : event.perform deadlineTimeLen state = some next) :
      TimerRun deadlineTimeLen allowed (events ++ [event]) next

theorem freshTimerheap_invariant (now : Timespec) (client : ClientAddr → TimedClient)
    (outside : ∀ cl, (client cl).timerheapIndex = invalThInd) :
    TimerInvariant (freshTimerheap now client).world where
  indexed := ⟨fun _ inside => absurd inside (Nat.not_lt_zero _), fun cl => Or.inl (outside cl)⟩
  ordered _ _ inside := absurd inside (Nat.not_lt_zero _)
  room := Nat.zero_le _
  powerOfTwo := ⟨8, by omega, rfl⟩

/-- A safe operation keeps the invariant. -/
theorem TimerInvariant.step {deadlineTimeLen : Int} {state next : ClockedWorld} {event : TimerEvent}
    (invariant : TimerInvariant state.world) (safe : event.Safe state.world)
    (performed : event.perform deadlineTimeLen state = some next) : TimerInvariant next.world := by
  cases event with
  | clock later =>
    simp only [TimerEvent.perform, Option.ite_none_right_eq_some, Option.some.injEq] at performed
    exact performed.2 ▸ invariant
  | add cl =>
    simp only [TimerEvent.perform, Option.ite_none_right_eq_some, Option.map_eq_some_iff]
      at performed
    obtain ⟨outside, result, call, rfl⟩ := performed
    obtain ⟨_, _, added, kept⟩ :=
      clTimerheapAdd_invariant state.now deadlineTimeLen invariant outside
    obtain rfl := Option.some.inj (call.symm.trans added)
    exact kept
  | remove cl =>
    obtain ⟨_, call, rfl⟩ := Option.map_eq_some_iff.mp performed
    obtain ⟨_, removed, kept⟩ := clTimerheapRemove_invariant invariant safe
    obtain rfl := Option.some.inj (call.symm.trans removed)
    exact kept
  | pop =>
    obtain ⟨_, call, rfl⟩ := Option.map_eq_some_iff.mp performed
    obtain ⟨_, taken, kept⟩ := clTimerheapPop_invariant invariant safe
    obtain rfl := Option.some.inj (call.symm.trans taken)
    exact kept

/-- A safe operation does not fail. -/
theorem TimerInvariant.perform_isSome {state : ClockedWorld} {event : TimerEvent}
    (deadlineTimeLen : Int) (invariant : TimerInvariant state.world)
    (promised : event.Promised state) (safe : event.Safe state.world) :
    ∃ next, event.perform deadlineTimeLen state = some next := by
  cases event with
  | clock later => exact ⟨_, if_pos promised⟩
  | add cl =>
    obtain ⟨_, _, added, _⟩ :=
      clTimerheapAdd_invariant state.now deadlineTimeLen invariant promised
    have outside : (state.world.client cl).timerheapIndex = invalThInd := promised
    exact ⟨_, by simp only [TimerEvent.perform, if_pos outside, added, Option.map_some]; rfl⟩
  | remove cl =>
    obtain ⟨_, removed, _⟩ := clTimerheapRemove_invariant invariant safe
    exact ⟨_, by rw [TimerEvent.perform, removed, Option.map_some]⟩
  | pop =>
    obtain ⟨_, taken, _⟩ := clTimerheapPop_invariant invariant safe
    exact ⟨_, by rw [TimerEvent.perform, taken, Option.map_some]⟩

theorem TimerInvariant.run {deadlineTimeLen : Int} {events : List TimerEvent} {state : ClockedWorld}
    (run : TimerRun deadlineTimeLen (fun world event => event.Safe world) events state) :
    TimerInvariant state.world := by
  induction run with
  | start now client outside => exact freshTimerheap_invariant now client outside
  | snoc _ safe performed inductionHypothesis => exact inductionHypothesis.step safe performed

/-- `cl_timerheap_peek` answers a client that is due no later than any other in the heap. -/
theorem TimerInvariant.peek_earliest {world : TimerWorld} (invariant : TimerInvariant world)
    {other : ClientAddr} (inHeap : (world.client other).timerheapIndex ≠ invalThInd) :
    ∃ cl, clTimerheapPeek world = some cl ∧
      (world.client cl).authDeadline ≤ (world.client other).authDeadline := by
  obtain ⟨slot, inside, found⟩ := (invariant.indexed.absent other).resolve_left inHeap
  obtain ⟨cl, root, _⟩ := invariant.indexed.occupied 0 (Nat.zero_lt_of_lt inside)
  refine ⟨cl, by rw [clTimerheapPeek, if_pos (Nat.ne_zero_of_lt inside), root], ?_⟩
  have least := invariant.ordered.root_le slot inside
  simpa only [TimerWorld.times, TimerWorld.deadline, root, found, Option.map_some,
    Option.getD_some] using least

/-- `cl_timerheap_pop` answers what `cl_timerheap_peek` does, whatever its sift makes of the heap. -/
theorem clTimerheapPop_fst {world next : TimerWorld} {popped : Option ClientAddr}
    (call : clTimerheapPop world = some (popped, next)) : popped = clTimerheapPeek world := by
  unfold clTimerheapPop at call
  unfold clTimerheapPeek
  split at call
  · next empty =>
    obtain ⟨rfl, _⟩ := Prod.mk.inj (Option.some.inj call)
    rw [if_neg (not_not_intro empty)]
  · next nonempty =>
    rw [if_pos nonempty]
    simp only [Option.bind_eq_bind, Option.bind_eq_some_iff] at call
    obtain ⟨cl, root, call⟩ := call
    rw [root]
    split at call
    · exact (Prod.mk.inj (Option.some.inj call)).1.symm
    · obtain ⟨_, _, call⟩ := Option.bind_eq_some_iff.mp call
      obtain ⟨_, _, call⟩ := Option.bind_eq_some_iff.mp call
      exact (Prod.mk.inj (Option.some.inj call)).1.symm

/-- Several operations. -/
def performAll (deadlineTimeLen : Int) (state : ClockedWorld) (events : List TimerEvent) :
    Option ClockedWorld :=
  events.foldlM (fun state event => event.perform deadlineTimeLen state) state

theorem TimerRun.performAll {deadlineTimeLen : Int} {allowed : TimerWorld → TimerEvent → Prop}
    {before events : List TimerEvent} {state next : ClockedWorld}
    (run : TimerRun deadlineTimeLen allowed before state)
    (allow : ∀ event ∈ events, ∀ world, allowed world event)
    (performed : Lwmsg.performAll deadlineTimeLen state events = some next) :
    TimerRun deadlineTimeLen allowed (before ++ events) next := by
  induction events generalizing before state with
  | nil =>
    obtain rfl := Option.some.inj performed
    rwa [List.append_nil]
  | cons event events inductionHypothesis =>
    rw [Lwmsg.performAll, List.foldlM_cons, Option.bind_eq_bind, Option.bind_eq_some_iff]
      at performed
    obtain ⟨middle, first, rest⟩ := performed
    rw [← List.singleton_append, ← List.append_assoc]
    exact inductionHypothesis (run.snoc (allow event List.mem_cons_self _) first)
      (fun other inside => allow other (List.mem_cons_of_mem _ inside)) rest

/-- **The heap stays in order in every run whose operations are safe.** Each client is due no
earlier than the one above it, so peeking and popping answer a client that is due first. No safe
operation fails. -/
theorem timerheap_ordered_of_safe {deadlineTimeLen : Int} {events : List TimerEvent}
    {state : ClockedWorld}
    (run : TimerRun deadlineTimeLen (fun world event => event.Safe world) events state) :
    Ordered state.world.times state.world.heap.numClients ∧
      (∀ other, (state.world.client other).timerheapIndex ≠ invalThInd →
        ∃ cl, clTimerheapPeek state.world = some cl ∧
          (state.world.client cl).authDeadline ≤ (state.world.client other).authDeadline) ∧
      (∀ popped next, clTimerheapPop state.world = some (popped, next) →
        popped = clTimerheapPeek state.world) ∧
      ∀ event : TimerEvent, event.Promised state → event.Safe state.world →
        ∃ next, event.perform deadlineTimeLen state = some next := by
  have invariant := TimerInvariant.run run
  exact ⟨invariant.ordered, fun _ => invariant.peek_earliest, fun _ _ => clTimerheapPop_fst,
    fun _ => invariant.perform_isSome deadlineTimeLen⟩

/-- Three clients that become due one second after the other. -/
def threeClients : List TimerEvent :=
  [.clock ⟨1, 0⟩, .add 1, .clock ⟨2, 0⟩, .add 2, .clock ⟨3, 0⟩, .add 3]

/-- Memory in which no client is in the heap. -/
def outsideClients (_ : ClientAddr) : TimedClient := ⟨invalThInd, ⟨0, 0⟩⟩

/-- Popping the first of three clients is safe. -/
theorem timerheap_ordered_of_safe_three_clients :
    ∃ state, TimerRun 4 (fun world event => event.Safe world) (threeClients ++ [.pop]) state ∧
      Ordered state.world.times state.world.heap.numClients := by
  obtain ⟨three, added⟩ : ∃ three, performAll 4 (freshTimerheap ⟨0, 0⟩ outsideClients)
      threeClients = some three := Option.isSome_iff_exists.mp (by decide +kernel)
  have look : (performAll 4 (freshTimerheap ⟨0, 0⟩ outsideClients) threeClients).map (fun state =>
      (state.world.heap.numClients, state.world.times 1, state.world.times 2)) =
        some (3, ⟨6, 0⟩, ⟨7, 0⟩) := by decide +kernel
  rw [added, Option.map_some, Option.some.injEq, Prod.mk.injEq, Prod.mk.injEq] at look
  obtain ⟨numClients, second, third⟩ := look
  have safe : PopSafe three.world := by
    have child : smallerChild three.world.times 2 0 = 1 := if_pos (Or.inl (by decide))
    rw [PopSafe, numClients]
    refine .move (by decide) ?_ (.leaf ?_)
    · rw [child, second, third]
      decide
    · rw [child]
      decide
  obtain ⟨state, popped⟩ : ∃ state, TimerEvent.pop.perform 4 three = some state := by
    have taken : (performAll 4 (freshTimerheap ⟨0, 0⟩ outsideClients)
      (threeClients ++ [.pop])).isSome := by decide +kernel
    rw [performAll, List.foldlM_append] at taken
    rw [performAll] at added
    rw [added] at taken
    exact Option.isSome_iff_exists.mp (by simpa using taken)
  have noPops : ∀ event ∈ threeClients, ∀ world, event.Safe world := by
    simp [threeClients, TimerEvent.Safe]
  have run := @TimerRun.performAll _ (fun world event => event.Safe world) _ _ _ _
    (.start ⟨0, 0⟩ outsideClients fun _ => rfl) noPops added
  have whole := @TimerRun.snoc _ _ _ .pop _ _ run safe popped
  exact ⟨state, whole, (timerheap_ordered_of_safe whole).1⟩

/-- Seven clients, of which the first three are popped. -/
def sevenClients : List TimerEvent :=
  threeClients ++ [.clock ⟨4, 0⟩, .add 4, .clock ⟨5, 0⟩, .add 5, .clock ⟨6, 0⟩, .add 6,
    .clock ⟨7, 0⟩, .add 7, .pop, .pop, .pop]

/-- The heap does not stay in order in every run: the third pop of seven clients swaps the fifth
client below the seventh. -/
theorem timerheap_disordered :
    ¬ ∀ (deadlineTimeLen : Int) (events : List TimerEvent) (state : ClockedWorld),
      TimerRun deadlineTimeLen (fun _ _ => True) events state →
        Ordered state.world.times state.world.heap.numClients := by
  intro claim
  obtain ⟨state, performed⟩ : ∃ state, performAll 4 (freshTimerheap ⟨0, 0⟩ outsideClients)
      sevenClients = some state := Option.isSome_iff_exists.mp (by decide +kernel)
  have look : (performAll 4 (freshTimerheap ⟨0, 0⟩ outsideClients) sevenClients).map (fun state =>
      (state.world.heap.numClients, state.world.times 1, state.world.times 3)) =
        some (4, ⟨11, 0⟩, ⟨9, 0⟩) := by decide +kernel
  rw [performed, Option.map_some, Option.some.injEq, Prod.mk.injEq, Prod.mk.injEq] at look
  obtain ⟨numClients, above, below⟩ := look
  have run := @TimerRun.performAll _ (fun _ _ => True) _ _ _ _
    (.start ⟨0, 0⟩ outsideClients fun _ => rfl) (fun _ _ _ => trivial) performed
  have ordered := claim 4 _ state run 3 (by decide) (by rw [numClients]; decide)
  rw [show parent 3 = 1 from rfl, above, below] at ordered
  exact absurd ordered (by decide)

end Lwmsg
