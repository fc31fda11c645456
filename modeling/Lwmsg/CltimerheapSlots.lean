/-
This file says which clients the heap of `server/cltimerheap.c` holds after each of
its operations. Unlike the order of the heap this does not depend on whether its
sifts are safe: wherever they lead, a client in the heap knows its slot, and an
operation adds or takes out the one client it is called for.
-/

import Lwmsg.Cltimerheap
import Mathlib.Data.Finset.Basic
import Mathlib.Data.List.Nodup

namespace Lwmsg

/-- A client is in the heap, as its index says. -/
def TimerWorld.Holds (world : TimerWorld) (addr : ClientAddr) : Prop :=
  (world.client addr).timerheapIndex ≠ invalThInd

/-! ### Sifting -/

section Sifting

variable {world next : TimerWorld} {count : Nat}

theorem Indexed.holds_iff (indexed : Indexed world count) (addr : ClientAddr) :
    world.Holds addr ↔ ∃ slot < count, world.heap.clients slot = some addr ∧
      (world.client addr).timerheapIndex = slot := by
  constructor
  · intro held
    obtain ⟨slot, inside, found⟩ := (indexed.absent addr).resolve_left held
    obtain ⟨other, otherFound, index⟩ := indexed.occupied slot inside
    obtain rfl := Option.some.inj (otherFound.symm.trans found)
    exact ⟨slot, inside, found, index⟩
  · rintro ⟨slot, _, _, index⟩
    rw [TimerWorld.Holds, index, invalThInd]
    omega

/-- What sifting leaves, in whatever order. -/
structure Resifted (world next : TimerWorld) (count : Nat) : Prop where
  indexed : Indexed next count
  same : SameClients world next
  holds : ∀ addr, next.Holds addr ↔ world.Holds addr

theorem Resifted.refl (indexed : Indexed world count) : Resifted world world count :=
  ⟨indexed, SameClients.refl world, fun _ => Iff.rfl⟩

theorem Resifted.trans {middle : TimerWorld} (first : Resifted world middle count)
    (second : Resifted middle next count) : Resifted world next count :=
  ⟨second.indexed, first.same.trans second.same,
    fun addr => (second.holds addr).trans (first.holds addr)⟩

theorem timerSwap_resifted (indexed : Indexed world count) {a b : Nat} (insideA : a < count)
    (insideB : b < count) (different : a ≠ b) :
    ∃ next, timerSwap world a b = some next ∧ Resifted world next count ∧
      next.heap.clients b = world.heap.clients a := by
  obtain ⟨next, swap, nextIndexed, _, same, _, last⟩ :=
    timerSwap_spec indexed insideA insideB different
  refine ⟨next, swap, ⟨nextIndexed, same, fun addr => ?_⟩, last⟩
  obtain ⟨first, firstFound, firstIndex⟩ := indexed.occupied a insideA
  obtain ⟨second, secondFound, secondIndex⟩ := indexed.occupied b insideB
  unfold timerSwap at swap
  simp only [firstFound, secondFound, Option.bind_eq_bind, Option.bind_some, Option.pure_def,
    Option.some.injEq] at swap
  subst swap
  simp only [TimerWorld.Holds, TimerWorld.setIndex]
  by_cases isFirst : addr = first
  · subst isFirst
    simp [firstIndex, secondIndex]
  · by_cases isSecond : addr = second
    · subst isSecond
      simp [isFirst, firstIndex, secondIndex]
    · simp [isFirst, isSecond]

theorem clTimerheapHeapifyUp_resifted {fuel index : Nat} (indexed : Indexed world count)
    (inside : index < count) (enough : index < fuel) :
    ∃ next, clTimerheapHeapifyUp fuel world index = some next ∧ Resifted world next count := by
  induction fuel generalizing world index with
  | zero => exact absurd enough (Nat.not_lt_zero _)
  | succ fuel inductionHypothesis =>
    rcases Nat.eq_zero_or_pos index with rfl | positive
    · exact ⟨world, rfl, .refl indexed⟩
    · have above : (index - 1) / 2 < index := BinaryHeap.parent_lt positive
      rw [clTimerheapHeapifyUp_turn indexed inside positive]
      split
      · obtain ⟨middle, swap, moved, _⟩ :=
          timerSwap_resifted indexed inside (above.trans inside) above.ne'
        obtain ⟨next, sift, sifted⟩ :=
          inductionHypothesis moved.indexed (above.trans inside) (by omega)
        exact ⟨next, by rw [swap]; exact sift, moved.trans sifted⟩
      · exact ⟨world, rfl, .refl indexed⟩

/-- It moves a client to a later slot in each turn, so it ends also where it goes on too far. -/
theorem clTimerheapHeapifyDown_resifted {fuel index : Nat} (indexed : Indexed world count)
    (bounded : count < 2 ^ 31) (inside : index < count) (enough : count ≤ fuel + index) :
    ∃ next, clTimerheapHeapifyDown (count - 1) fuel world index = some next ∧
      Resifted world next count := by
  induction fuel generalizing world index with
  | zero => omega
  | succ fuel inductionHypothesis =>
    by_cases leaf : count ≤ 2 * index + 1
    · exact ⟨world, clTimerheapHeapifyDown_leaf indexed bounded inside leaf fuel, .refl indexed⟩
    · rw [clTimerheapHeapifyDown_turn indexed bounded inside leaf rfl]
      have below := (smallerChild_isChild world.times count index).lt
      have childInside : smallerChild world.times count index < count :=
        smallerChild_lt (Nat.not_le.mp leaf)
      generalize smallerChild world.times count index = child at *
      split
      · obtain ⟨middle, swap, moved, _⟩ := timerSwap_resifted indexed inside childInside below.ne
        obtain ⟨next, sift, sifted⟩ := inductionHypothesis moved.indexed childInside (by omega)
        exact ⟨next, by rw [swap]; exact sift, moved.trans sifted⟩
      · exact ⟨world, rfl, .refl indexed⟩

end Sifting

/-! ### The operations -/

section Operations

variable {world : TimerWorld} {cl : ClientAddr} {count index : Nat}

/-- A world that holds the same clients but for one. -/
def OthersHeld (world next : TimerWorld) (cl : ClientAddr) : Prop :=
  ∀ addr, addr ≠ cl → (next.Holds addr ↔ world.Holds addr)

theorem setIndex_not_holds (world : TimerWorld) (cl : ClientAddr) :
    ¬ (world.setIndex cl invalThInd).Holds cl := by
  simp [TimerWorld.Holds, TimerWorld.setIndex]

theorem setIndex_othersHeld (world : TimerWorld) (cl : ClientAddr) (index : Int) :
    OthersHeld world (world.setIndex cl index) cl := by
  intro addr different
  simp [TimerWorld.Holds, TimerWorld.setIndex, different]

/-- Taking out the client in the last slot. -/
theorem TimerSlots.dropLast (slots : TimerSlots world)
    (nonempty : world.heap.numClients = count + 1) (found : world.heap.clients count = some cl) :
    TimerSlots ((world.setNumClients count).setIndex cl invalThInd) := by
  have indexed := slots.indexed
  rw [nonempty] at indexed
  have room := slots.room
  rw [nonempty] at room
  have fewer : Indexed (world.setNumClients count) (count + 1) := ⟨indexed.occupied, indexed.absent⟩
  exact ⟨fewer.removeLast found, (Nat.le_succ count).trans room, slots.powerOfTwo⟩

/-- Taking out the client in another slot leaves the last one in its place. -/
theorem TimerSlots.takeOut (slots : TimerSlots world)
    (nonempty : world.heap.numClients = count + 1) (inside : index < count)
    (found : world.heap.clients index = some cl) :
    ∃ middle, timerSwap (world.setNumClients count) index count = some middle ∧
      Indexed (middle.setIndex cl invalThInd) count ∧
      (middle.setIndex cl invalThInd).heap.numClients = count ∧
      (middle.setIndex cl invalThInd).heap.numSlots = world.heap.numSlots ∧
      OthersHeld world (middle.setIndex cl invalThInd) cl := by
  have indexed := slots.indexed
  rw [nonempty] at indexed
  have fewer : Indexed (world.setNumClients count) (count + 1) := ⟨indexed.occupied, indexed.absent⟩
  obtain ⟨middle, swap, moved, last⟩ :=
    timerSwap_resifted fewer (inside.trans (Nat.lt_succ_self _)) (Nat.lt_succ_self _) inside.ne
  refine ⟨middle, swap, moved.indexed.removeLast (last.trans found), moved.same.numClients,
    moved.same.numSlots, fun addr different => ?_⟩
  exact (setIndex_othersHeld middle cl _ addr different).trans (moved.holds addr)

/-- A finished sift behind it. -/
theorem TimerSlots.ofResifted {middle next : TimerWorld} (slots : TimerSlots world)
    (fewer : count ≤ world.heap.numClients) (numClients : middle.heap.numClients = count)
    (numSlots : middle.heap.numSlots = world.heap.numSlots) (sifted : Resifted middle next count) :
    TimerSlots next where
  indexed := by
    rw [sifted.same.numClients, numClients]
    exact sifted.indexed
  room := by
    rw [sifted.same.numClients, numClients, sifted.same.numSlots, numSlots]
    exact fewer.trans slots.room
  powerOfTwo := by
    rw [sifted.same.numSlots, numSlots]
    exact slots.powerOfTwo

/-- What an operation leaves that takes a client out. -/
structure TakenOut (world next : TimerWorld) (cl : ClientAddr) : Prop where
  slots : TimerSlots next
  absent : ¬ next.Holds cl
  others : OthersHeld world next cl

theorem TimerSlots.takenOut {middle next : TimerWorld} (slots : TimerSlots world)
    (fewer : count ≤ world.heap.numClients)
    (numClients : (middle.setIndex cl invalThInd).heap.numClients = count)
    (numSlots : (middle.setIndex cl invalThInd).heap.numSlots = world.heap.numSlots)
    (others : OthersHeld world (middle.setIndex cl invalThInd) cl)
    (sifted : Resifted (middle.setIndex cl invalThInd) next count) : TakenOut world next cl where
  slots := slots.ofResifted fewer numClients numSlots sifted
  absent := fun held => setIndex_not_holds middle cl ((sifted.holds cl).mp held)
  others := fun addr different => (sifted.holds addr).trans (others addr different)

/-- `cl_timerheap_pop` takes out the first client. -/
theorem clTimerheapPop_takenOut (slots : TimerSlots world)
    (peek : clTimerheapPeek world = some cl) :
    world.Holds cl ∧ ∃ next, clTimerheapPop world = some (some cl, next) ∧
      TakenOut world next cl := by
  rw [clTimerheapPeek] at peek
  split at peek
  case isFalse empty => cases peek
  case isTrue nonempty =>
    have held : world.Holds cl := by
      obtain ⟨other, found, index⟩ := slots.indexed.occupied 0 (Nat.pos_of_ne_zero nonempty)
      obtain rfl := Option.some.inj (found.symm.trans peek)
      simp [TimerWorld.Holds, index]
    obtain ⟨count, numClients⟩ : ∃ count, world.heap.numClients = count + 1 :=
      ⟨world.heap.numClients - 1, by omega⟩
    refine ⟨held, ?_⟩
    rw [clTimerheapPop, if_neg nonempty]
    simp only [peek, numClients, Nat.add_sub_cancel, Option.bind_eq_bind, Option.bind_some]
    rcases Nat.eq_zero_or_pos count with rfl | more
    · exact ⟨_, rfl, slots.dropLast numClients peek, setIndex_not_holds _ _,
        setIndex_othersHeld _ _ _⟩
    · have bounded := slots.bounded
      rw [numClients] at bounded
      have noWrap : count % 2 ^ 32 = count := Nat.mod_eq_of_lt (by omega)
      have noWrapLast : (count - 1) % 2 ^ 32 = count - 1 := Nat.mod_eq_of_lt (by omega)
      obtain ⟨middle, swap, indexed, middleClients, middleSlots, others⟩ :=
        slots.takeOut numClients more peek
      obtain ⟨next, sift, sifted⟩ :=
        @clTimerheapHeapifyDown_resifted _ count count _ indexed (by omega) more (by omega)
      refine ⟨next, ?_, slots.takenOut (by omega) middleClients middleSlots others sifted⟩
      rw [if_neg more.ne', noWrap, swap, noWrapLast]
      simp only [Option.bind_some, sift]
      rfl

/-- `cl_timerheap_remove` takes a client out, and does nothing for one that is not in the heap. -/
theorem clTimerheapRemove_takenOut (slots : TimerSlots world) (cl : ClientAddr) :
    ∃ next, clTimerheapRemove world cl = some next ∧ TakenOut world next cl ∧
      (¬ world.Holds cl → next = world) := by
  rw [clTimerheapRemove]
  by_cases held : world.Holds cl
  · obtain ⟨index, inside, found, isIndex⟩ := (slots.indexed.holds_iff cl).mp held
    obtain ⟨count, numClients⟩ : ∃ count, world.heap.numClients = count + 1 :=
      ⟨world.heap.numClients - 1, by omega⟩
    have some : ¬ (world.heap.numClients = 0 ∨ (world.client cl).timerheapIndex = invalThInd) := by
      rintro (empty | absent)
      · omega
      · exact held absent
    have bounded := slots.bounded
    rw [numClients] at bounded inside
    have noWrap : ((index : Int) % 2 ^ 32).toNat = index := by omega
    have noWrapLast : (count - 1) % 2 ^ 32 = count - 1 := Nat.mod_eq_of_lt (by omega)
    rw [if_neg some]
    simp only [isIndex, noWrap, numClients, Nat.add_sub_cancel, noWrapLast]
    by_cases last : count = 0 ∨ index = count
    · rw [if_pos last]
      obtain rfl : index = count := by omega
      exact ⟨_, rfl, ⟨slots.dropLast numClients found, setIndex_not_holds _ _,
        setIndex_othersHeld _ _ _⟩, fun absent => absurd held absent⟩
    · rw [if_neg last]
      have before : index < count := by omega
      obtain ⟨middle, swap, indexed, middleClients, middleSlots, others⟩ :=
        slots.takeOut numClients before found
      simp only [swap, Option.bind_eq_bind, Option.bind_some]
      have down : ∃ next, clTimerheapHeapifyDown (count - 1) count
          (middle.setIndex cl invalThInd) index = .some next ∧ TakenOut world next cl := by
        obtain ⟨next, sift, sifted⟩ :=
          @clTimerheapHeapifyDown_resifted _ count count _ indexed (by omega) before (by omega)
        exact ⟨next, sift, slots.takenOut (by omega) middleClients middleSlots others sifted⟩
      have left {result : Option TimerWorld}
          (taken : ∃ next, result = .some next ∧ TakenOut world next cl) :
          ∃ next, result = .some next ∧ TakenOut world next cl ∧ (¬ world.Holds cl → next = world) := by
        obtain ⟨next, sift, taken⟩ := taken
        exact ⟨next, sift, taken, fun absent => absurd held absent⟩
      rcases Nat.eq_zero_or_pos index with rfl | positive
      · rw [if_pos rfl]
        exact left down
      · have above : (index - 1) / 2 < index := BinaryHeap.parent_lt positive
        rw [if_neg positive.ne', timerMinEq_first indexed before (above.trans before) positive
          above.ne, Option.bind_some]
        split
        · obtain ⟨next, sift, sifted⟩ :=
            clTimerheapHeapifyUp_resifted indexed before (Nat.lt_succ_self _)
          exact left ⟨next, sift, slots.takenOut (by omega) middleClients middleSlots others sifted⟩
        · exact left down
  · have nothing : world.heap.numClients = 0 ∨ (world.client cl).timerheapIndex = invalThInd :=
      .inr (not_not.mp held)
    exact ⟨world, by rw [if_pos nothing], ⟨slots, held, fun _ _ => Iff.rfl⟩, fun _ => rfl⟩

theorem clTimerheapResize_ne_none (few : world.heap.numSlots < 2 ^ 31) :
    clTimerheapResize world ≠ none := by
  have noWrap : (world.heap.numSlots <<< 1) % 2 ^ 32 = 2 * world.heap.numSlots := by
    rw [Nat.shiftLeft_eq, Nat.mod_eq_of_lt (by omega)]
    omega
  rw [clTimerheapResize, noWrap, if_neg (by omega)]
  simp

/-- `cl_timerheap_add` adds a client unless the heap has `2 ^ 31` of them. -/
theorem clTimerheapAdd_slots (now : Timespec) (deadlineTimeLen : Int) (slots : TimerSlots world)
    (few : world.heap.numClients < 2 ^ 31) (absent : ¬ world.Holds cl) :
    ∃ next, clTimerheapAdd world cl now deadlineTimeLen = some (true, next) ∧ TimerSlots next ∧
      next.Holds cl ∧ OthersHeld world next cl := by
  obtain ⟨larger, room, kept, free, client⟩ : ∃ larger,
      (if world.heap.numClients = world.heap.numSlots then clTimerheapResize world else some world) =
        some larger ∧ TimerSlots larger ∧ larger.heap.numClients < larger.heap.numSlots ∧
        larger.client = world.client := by
    by_cases full : world.heap.numClients = world.heap.numSlots
    · rw [if_pos full]
      cases resize : clTimerheapResize world with
      | none => exact absurd resize (clTimerheapResize_ne_none (full ▸ few))
      | some larger =>
        obtain ⟨kept, numClients, grows, client, _⟩ := clTimerheapResize_slots slots resize
        exact ⟨larger, rfl, kept, by omega, client⟩
    · rw [if_neg full]
      exact ⟨world, rfl, slots, lt_of_le_of_ne slots.room full, rfl⟩
  have outside : (larger.client cl).timerheapIndex = invalThInd := by
    rw [client]
    exact not_not.mp absent
  rw [clTimerheapAdd_eq now deadlineTimeLen kept free room]
  generalize { now with tvSec := now.tvSec + deadlineTimeLen } = time
  obtain ⟨next, sift, sifted⟩ := clTimerheapHeapifyUp_resifted
    (kept.indexed.placeLast outside time) (Nat.lt_succ_self _) (Nat.lt_succ_self _)
  have numClients : next.heap.numClients = larger.heap.numClients + 1 := sifted.same.numClients
  have numSlots : next.heap.numSlots = larger.heap.numSlots := sifted.same.numSlots
  refine ⟨next, by rw [sift]; rfl, ⟨?_, ?_, ?_⟩, ?_, fun addr different => ?_⟩
  · rw [numClients]
    exact sifted.indexed
  · rw [numClients, numSlots]
    exact free
  · rw [numSlots]
    exact kept.powerOfTwo
  · refine (sifted.holds cl).mpr ?_
    simp [TimerWorld.Holds, TimerWorld.placeLast]
  · refine (sifted.holds addr).trans ?_
    simp [TimerWorld.Holds, TimerWorld.placeLast, different, client]

/-- A heap that can grow no more takes no client. -/
theorem clTimerheapAdd_full (cl : ClientAddr) (now : Timespec) (deadlineTimeLen : Int)
    (slots : TimerSlots world) (full : 2 ^ 31 ≤ world.heap.numClients) :
    clTimerheapAdd world cl now deadlineTimeLen = some (false, world) := by
  have bounded := slots.bounded
  have room := slots.room
  obtain ⟨power, atMost, numSlots⟩ := slots.powerOfTwo
  have largest : 2 ^ power ≤ 2 ^ 31 := Nat.pow_le_pow_right (by omega) atMost
  have all : world.heap.numClients = world.heap.numSlots := by omega
  have size : world.heap.numSlots = 2 ^ 31 := by omega
  have wraps : (world.heap.numSlots <<< 1) % 2 ^ 32 = 0 := by rw [size]; rfl
  have resize : clTimerheapResize world = none := by
    rw [clTimerheapResize, wraps, if_pos (by omega)]
  rw [clTimerheapAdd, if_pos all, resize]

/-- The clients of a heap are as many as it counts. -/
theorem TimerSlots.members (slots : TimerSlots world) :
    ∃ addrs : List ClientAddr, addrs.Nodup ∧ addrs.length = world.heap.numClients ∧
      ∀ addr ∈ addrs, world.Holds addr := by
  choose! occupant found index using slots.indexed.occupied
  refine ⟨(List.range world.heap.numClients).map occupant, ?_, by simp, ?_⟩
  · refine List.Nodup.map_on (fun slot inside other otherInside same => ?_) List.nodup_range
    have first := index slot (List.mem_range.mp inside)
    rw [same, index other (List.mem_range.mp otherInside)] at first
    omega
  · intro addr member
    obtain ⟨slot, inside, rfl⟩ := List.mem_map.mp member
    exact (slots.indexed.holds_iff _).mpr ⟨slot, List.mem_range.mp inside,
      found slot (List.mem_range.mp inside), index slot (List.mem_range.mp inside)⟩

end Operations

/-! ### New clients -/

/-- The fields of a client that the heap uses, as `create_std_client` and `track_new_client` set
them. -/
def TimerWorld.register (world : TimerWorld) (cl : ClientAddr) : TimerWorld :=
  { world with client := Function.update world.client cl ⟨invalThInd, ⟨0, 0⟩⟩ }

theorem TimerSlots.register {world : TimerWorld} {cl : ClientAddr} (slots : TimerSlots world)
    (absent : ¬ world.Holds cl) :
    TimerSlots (world.register cl) ∧ ∀ addr, (world.register cl).Holds addr ↔ world.Holds addr := by
  have index (addr : ClientAddr) : ((world.register cl).client addr).timerheapIndex =
      (world.client addr).timerheapIndex := by
    by_cases same : addr = cl
    · subst same
      simpa [TimerWorld.register, TimerWorld.Holds] using (not_not.mp absent).symm
    · simp [TimerWorld.register, same]
  refine ⟨⟨⟨fun slot inside => ?_, fun addr => ?_⟩, slots.room, slots.powerOfTwo⟩, fun addr => ?_⟩
  · obtain ⟨addr, found, place⟩ := slots.indexed.occupied slot inside
    exact ⟨addr, found, (index addr).trans place⟩
  · rw [index]
    exact slots.indexed.absent addr
  · rw [TimerWorld.Holds, TimerWorld.Holds, index]

/-! ### Sequences of operations -/

/-- An operation on the heap. The time of an addition is what `clock_gettime` answers then. -/
inductive HeapOperation
  | add (cl : ClientAddr) (now : Timespec) (deadlineTimeLen : Int)
  | remove (cl : ClientAddr)
  | pop
  deriving DecidableEq, Repr

/-- The heap beside the clients that were added and not yet removed or popped, and those that were
ever added. -/
structure HeapHistory where
  world : TimerWorld
  inside : Finset ClientAddr
  ever : Finset ClientAddr

namespace HeapHistory

/-- The heap of `DEF_CLTH_SIZE` slots, with nothing added yet. -/
def start (client : ClientAddr → TimedClient) : HeapHistory :=
  ⟨⟨client, emptyTimerheap defClthSize⟩, ∅, ∅⟩

/-- One operation. The callers add a client when they have created it or taken it over, so it is not
in the heap then. An addition counts if `cl_timerheap_add` answers that it took place. -/
def perform (history : HeapHistory) : HeapOperation → Option HeapHistory
  | .add cl now deadlineTimeLen =>
    if cl ∈ history.inside then none
    else (clTimerheapAdd history.world cl now deadlineTimeLen).map fun result =>
      if result.1 then ⟨result.2, insert cl history.inside, insert cl history.ever⟩
      else { history with world := result.2 }
  | .remove cl => (clTimerheapRemove history.world cl).map fun world =>
    { history with world, inside := history.inside.erase cl }
  | .pop => (clTimerheapPop history.world).map fun result =>
    { history with
      world := result.2
      inside := match result.1 with
        | some popped => history.inside.erase popped
        | none => history.inside }

/-- The histories that a sequence of operations leads to. A client has the index `INVAL_TH_IND` when
it is created. -/
inductive Reachable : HeapHistory → Prop
  | start (client : ClientAddr → TimedClient)
      (created : ∀ cl, (client cl).timerheapIndex = invalThInd) : Reachable (start client)
  | step {history next : HeapHistory} (operation : HeapOperation) (before : Reachable history)
      (performed : history.perform operation = some next) : Reachable next

/-- The clients that know a slot are those of the history. -/
structure Tracked (history : HeapHistory) : Prop where
  slots : TimerSlots history.world
  holds : ∀ addr, history.world.Holds addr ↔ addr ∈ history.inside

/-- What is to hold of the slots of a heap and of the indices of clients. -/
structure SlotsMatch (world : TimerWorld) (inside ever : Finset ClientAddr) : Prop where
  exactly : ∀ addr, addr ∈ inside ↔
    ∃ slot < world.heap.numClients, world.heap.clients slot = some addr
  once : ∀ first < world.heap.numClients, ∀ second < world.heap.numClients,
    world.heap.clients first = world.heap.clients second → first = second
  index : ∀ slot < world.heap.numClients, ∃ addr, world.heap.clients slot = some addr ∧
    (world.client addr).timerheapIndex = slot
  outside : ∀ addr ∈ ever, addr ∉ inside → (world.client addr).timerheapIndex = invalThInd

variable {history next : HeapHistory}

theorem Tracked.slotsMatch (tracked : Tracked history) :
    SlotsMatch history.world history.inside history.ever := by
  have indexed := tracked.slots.indexed
  refine ⟨fun addr => ?_, fun first firstInside second secondInside same => ?_, indexed.occupied,
    fun addr _ out => ?_⟩
  · rw [← tracked.holds, indexed.holds_iff]
    constructor
    · rintro ⟨slot, within, found, -⟩
      exact ⟨slot, within, found⟩
    · rintro ⟨slot, within, found⟩
      obtain ⟨other, otherFound, index⟩ := indexed.occupied slot within
      obtain rfl := Option.some.inj (otherFound.symm.trans found)
      exact ⟨slot, within, found, index⟩
  · obtain ⟨addr, found, -⟩ := indexed.occupied first firstInside
    exact indexed.slot_unique firstInside secondInside found (same.symm.trans found)
  · exact not_not.mp fun held => out ((tracked.holds addr).mp held)

/-- An operation that takes a client out takes it out of the history. -/
theorem Tracked.erase {world : TimerWorld} {cl : ClientAddr} (tracked : Tracked history)
    (taken : TakenOut history.world world cl) :
    Tracked { history with world, inside := history.inside.erase cl } := by
  refine ⟨taken.slots, fun addr => ?_⟩
  rw [Finset.mem_erase]
  by_cases same : addr = cl
  · subst same
    exact iff_of_false taken.absent fun isMember => isMember.1 rfl
  · rw [taken.others addr same, tracked.holds]
    exact (and_iff_right same).symm

/-- An operation goes through, unless it adds a client that is in the heap, and what it leaves is
tracked. -/
theorem Tracked.perform (tracked : Tracked history) (operation : HeapOperation)
    (promised : ∀ cl now deadlineTimeLen, operation = .add cl now deadlineTimeLen →
      cl ∉ history.inside) :
    ∃ next, history.perform operation = some next ∧ Tracked next := by
  cases operation with
  | add cl now deadlineTimeLen =>
    have new := promised cl now deadlineTimeLen rfl
    have absent : ¬ history.world.Holds cl := fun held => new ((tracked.holds cl).mp held)
    rw [HeapHistory.perform, if_neg new]
    by_cases few : history.world.heap.numClients < 2 ^ 31
    · obtain ⟨world, call, slots, held, others⟩ :=
        clTimerheapAdd_slots now deadlineTimeLen tracked.slots few absent
      rw [call]
      refine ⟨_, rfl, slots, fun addr => ?_⟩
      show world.Holds addr ↔ addr ∈ insert cl history.inside
      rw [Finset.mem_insert]
      by_cases same : addr = cl
      · subst same
        exact iff_of_true held (.inl rfl)
      · rw [others addr same, tracked.holds]
        exact (or_iff_right same).symm
    · rw [clTimerheapAdd_full cl now deadlineTimeLen tracked.slots (not_lt.mp few)]
      exact ⟨_, rfl, tracked.slots, tracked.holds⟩
  | remove cl =>
    obtain ⟨world, call, taken, -⟩ := clTimerheapRemove_takenOut tracked.slots cl
    rw [HeapHistory.perform, call]
    exact ⟨_, rfl, tracked.erase taken⟩
  | pop =>
    rw [HeapHistory.perform]
    cases peek : clTimerheapPeek history.world with
    | none =>
      have empty : history.world.heap.numClients = 0 := by
        by_contra nonempty
        obtain ⟨addr, found, -⟩ := tracked.slots.indexed.occupied 0 (Nat.pos_of_ne_zero nonempty)
        rw [clTimerheapPeek, if_pos nonempty, found] at peek
        cases peek
      rw [clTimerheapPop, if_pos empty]
      exact ⟨_, rfl, tracked.slots, tracked.holds⟩
    | some cl =>
      obtain ⟨-, world, call, taken⟩ := clTimerheapPop_takenOut tracked.slots peek
      rw [call]
      exact ⟨_, rfl, tracked.erase taken⟩

theorem Reachable.tracked (reachable : Reachable history) : Tracked history := by
  induction reachable with
  | start client created =>
    refine ⟨⟨⟨fun _ within => absurd within (Nat.not_lt_zero _), fun cl => .inl (created cl)⟩,
      Nat.zero_le _, 8, by decide, rfl⟩, fun addr => ?_⟩
    exact iff_of_false (fun held => held (created addr)) (Finset.notMem_empty addr)
  | @step history next operation before performed inductionHypothesis =>
    have promised : ∀ cl now deadlineTimeLen, operation = .add cl now deadlineTimeLen →
        cl ∉ history.inside := by
      rintro cl now deadlineTimeLen rfl isMember
      rw [HeapHistory.perform, if_pos isMember] at performed
      cases performed
    obtain ⟨other, call, tracked⟩ := inductionHypothesis.perform operation promised
    obtain rfl := Option.some.inj (call.symm.trans performed)
    exact tracked

end HeapHistory

/-- After every sequence of operations the slots hold exactly the clients that were added and not yet
removed or popped, each once and with its slot as its index, and the others that were ever added have
the index `INVAL_TH_IND`. A removal takes out its client and no other; the second one in a row, like
every removal of a client that is not in the heap, changes nothing. -/
theorem cltimerheap_slots_match {history : HeapHistory} (reachable : history.Reachable) :
    HeapHistory.SlotsMatch history.world history.inside history.ever ∧
    ∀ cl, ∃ world, clTimerheapRemove history.world cl = some world ∧
      HeapHistory.SlotsMatch world (history.inside.erase cl) history.ever ∧
      clTimerheapRemove world cl = some world ∧
      (cl ∉ history.inside → world = history.world) := by
  have tracked := reachable.tracked
  refine ⟨tracked.slotsMatch, fun cl => ?_⟩
  obtain ⟨world, call, taken, nothing⟩ := clTimerheapRemove_takenOut tracked.slots cl
  obtain ⟨again, second, -, same⟩ := clTimerheapRemove_takenOut taken.slots cl
  refine ⟨world, call, (tracked.erase taken).slotsMatch, ?_, fun out => nothing fun held => ?_⟩
  · rw [second, same taken.absent]
  · exact out ((tracked.holds cl).mp held)

/-- Two clients, of which the first is popped. -/
theorem cltimerheap_slots_match_two_clients :
    ∃ history : HeapHistory, history.inside = {2} ∧ history.ever = {1, 2} ∧
      HeapHistory.SlotsMatch history.world history.inside history.ever := by
  have sets : (((HeapHistory.start outsideClients).perform (.add 1 ⟨1, 0⟩ 4)).bind fun one =>
      (one.perform (.add 2 ⟨2, 0⟩ 4)).bind fun two => two.perform .pop).map
        (fun history => (history.inside, history.ever)) = some ({2}, {1, 2}) := by decide +kernel
  obtain ⟨history, performed, same⟩ := Option.map_eq_some_iff.mp sets
  obtain ⟨one, first, performed⟩ := Option.bind_eq_some_iff.mp performed
  obtain ⟨two, second, third⟩ := Option.bind_eq_some_iff.mp performed
  obtain ⟨inside, ever⟩ := Prod.mk.inj same
  have reachable := ((HeapHistory.Reachable.start outsideClients fun _ => rfl).step _ first).step
    _ second
  exact ⟨history, inside, ever, (cltimerheap_slots_match (reachable.step _ third)).1⟩

end Lwmsg
