/-
This file is about the races for the records of blocked addresses. A worker looks a record up,
checks it, and acts on the table in separate steps, and other workers and the control thread come
in between.

`IpblockWorld.view` forgets all of a record but its key and whether a control command made it, so
that the rules for keyed tables say which removals take the record they are meant for. For one
address, the failed authentications that were answered are those its record counted and those that
lost the race to insert one.
-/

import Lwmsg.Ipblock
import Lwmsg.KeyedTable

namespace Lwmsg

/-! ### The keys of the records -/

/-- The place a worker is about to remove the record of. -/
def IpblockTask.removes : IpblockTask → Option Nat
  | .removing place => some place
  | .idle | .checking _ | .counting _ | .creating _ => none

/-- A record that a control command made is pinned. -/
def StdIpbRec.keyed (stdipbr : StdIpbRec) : KeyedRecord Bytes := ⟨stdipbr.ipAddr, stdipbr.isManual⟩

namespace IpblockWorld

/-- The table of the records with their keys. -/
def view (world : IpblockWorld) : KeyedTable Bytes where
  records := world.records.map fun stdipbr => stdipbr.keyed
  table := world.table
  removing := fun worker => (world.tasks worker).removes

/-- What an event does to the table of the keys. -/
def action (world : IpblockWorld) : IpblockEvent → KeyedAction Bytes
  | .acceptCheck worker =>
    match world.tasks worker with
    | .checking place =>
      match world.records[place]? with
      | some stdipbr =>
        if chkStdBlock stdipbr.toStdIpbRec world.clock = .expired then .condemn worker place
        else .keep
      | none => .keep
    | _ => .keep
  | .acceptRemove worker => .removeFound worker
  | .failureAdd worker =>
    match world.tasks worker with
    | .creating peerName => .insert peerName false
    | _ => .keep
  | .stdIpblock peerName => if peerName = inaddrNone then .keep else .insert peerName true
  | .stdUnblock peerName => if peerName = inaddrNone then .keep else .remove peerName
  | .tick _ | .acceptGet _ _ | .failureGet _ _ | .failureCount _ => .keep

theorem view_withTask (world : IpblockWorld) (worker : Nat) (task : IpblockTask) :
    (world.withTask worker task).view =
      { world.view with
        removing := Function.update world.view.removing worker task.removes } := by
  simp only [view, withTask, KeyedTable.mk.injEq, true_and]
  funext other
  by_cases same : other = worker
  · rw [same, if_pos rfl, Function.update_self]
  · rw [if_neg same, Function.update_of_ne same]

/-- A task that is not about to remove anything leaves the keys as they are. -/
theorem view_withTask_of_eq {world : IpblockWorld} {worker : Nat} {task : IpblockTask}
    (same : (world.tasks worker).removes = task.removes) :
    (world.withTask worker task).view = world.view := by
  have removing : world.view.removing worker = task.removes := same
  rw [view_withTask, ← removing, Function.update_eq_self]

theorem view_add (world : IpblockWorld) (peerName : Bytes) (isManual : Bool) :
    (world.add peerName isManual).view = world.view.apply (.insert peerName isManual) := by
  cases held : world.table peerName with
  | some place =>
    have there : world.view.table peerName = some place := held
    rw [add, held, KeyedTable.apply, there]
  | none =>
    have missing : world.view.table peerName = none := held
    rw [add, held, KeyedTable.apply, missing]
    simp only [view, KeyedTable.mk.injEq, List.map_append, List.map_cons, List.map_nil,
      List.length_map, and_true]
    refine ⟨rfl, ?_⟩
    funext other
    rw [Function.update_apply]

theorem view_remove (world : IpblockWorld) (peerName : Bytes) :
    (world.remove peerName).view = world.view.apply (.remove peerName) := by
  simp only [view, remove, KeyedTable.apply, KeyedTable.mk.injEq, true_and, and_true]
  funext other
  rw [Function.update_apply]

theorem view_count (world : IpblockWorld) (place : Nat) : (world.count place).view = world.view := by
  simp only [view, count, KeyedTable.mk.injEq, and_self, and_true]
  apply List.ext_getElem?
  intro other
  rw [List.getElem?_map, List.getElem?_map, List.getElem?_modify]
  split
  · simp only [Option.map_eq_map, Option.map_map]
    rfl
  · simp

theorem tasks_add (world : IpblockWorld) (peerName : Bytes) (isManual : Bool) :
    (world.add peerName isManual).tasks = world.tasks := by
  rw [add]
  split
  · rfl
  · rfl

/-- Every step is a step of the keyed table. -/
theorem step_view {world next : IpblockWorld} {event : IpblockEvent}
    (taken : world.step event = some next) :
    world.view.act (world.action event) = some next.view := by
  refine congrArg some ?_
  cases step_taken taken with
  | tick seconds => rfl
  | checking idle there => exact (view_withTask_of_eq (by rw [idle]; rfl)).symm
  | unknown idle missing => rfl
  | @expired worker place stdipbr task there expired =>
    simp only [action, task, there, expired, if_true]
    exact (view_withTask world worker (.removing place)).symm
  | current task there current =>
    simp only [action, task, there, if_neg current]
    exact (view_withTask_of_eq (by rw [task]; rfl)).symm
  | @removed worker place stdipbr task there =>
    have about : world.view.removing worker = some place := by
      show (world.tasks worker).removes = some place
      rw [task]
      rfl
    have there : world.view.records[place]? = some stdipbr.keyed := by
      show (world.records.map fun stdipbr => stdipbr.keyed)[place]? = _
      rw [List.getElem?_map, there]
      rfl
    rw [view_withTask, view_remove]
    simp only [action, KeyedTable.apply, about, Option.bind_some, there]
    rfl
  | counting idle there => exact (view_withTask_of_eq (by rw [idle]; rfl)).symm
  | creating idle missing => exact (view_withTask_of_eq (by rw [idle]; rfl)).symm
  | @counted worker place task =>
    have same : ((world.count place).tasks worker).removes = IpblockTask.idle.removes := by
      rw [count, task]
      rfl
    rw [view_withTask_of_eq same, view_count]
    rfl
  | @added worker peerName task =>
    have same : ((world.add peerName false).tasks worker).removes = IpblockTask.idle.removes := by
      rw [tasks_add, task]
      rfl
    rw [view_withTask_of_eq same, view_add]
    simp only [action, task]
  | notBlocked =>
    rw [action, if_pos rfl]
    rfl
  | blocked proper =>
    rw [action, if_neg proper]
    exact (view_add world _ true).symm
  | notUnblocked =>
    rw [action, if_pos rfl]
    rfl
  | unblocked proper =>
    rw [action, if_neg proper]
    exact (view_remove world _).symm

theorem condemnsRecord_action (world : IpblockWorld) (event : IpblockEvent) :
    world.view.CondemnsRecord (world.action event) := by
  cases event with
  | acceptCheck worker =>
    rw [action]
    split
    · split
      · rename_i place _ _ stdipbr found
        split
        · show place < (world.records.map fun stdipbr => stdipbr.keyed).length
          rw [List.length_map]
          exact (List.getElem?_eq_some_iff.mp found).1
        · trivial
      · trivial
    · trivial
  | failureAdd worker =>
    rw [action]
    split
    · trivial
    · trivial
  | stdIpblock peerName =>
    rw [action]
    split
    · trivial
    · trivial
  | stdUnblock peerName =>
    rw [action]
    split
    · trivial
    · trivial
  | tick _ => trivial
  | acceptGet _ _ => trivial
  | acceptRemove _ => trivial
  | failureGet _ _ => trivial
  | failureCount _ => trivial

end IpblockWorld

theorem IpblockRun.traced {clock : Nat} {history : List (IpblockWorld × IpblockEvent)}
    {world : IpblockWorld} (run : IpblockRun clock history world) :
    Traced IpblockWorld.step (ipblockStart clock) history world := by
  induction run with
  | start => exact .start
  | step _ taken inductionHypothesis => exact .step inductionHypothesis taken

theorem ipblockRun_of_traced {clock : Nat} {history : List (IpblockWorld × IpblockEvent)}
    {world : IpblockWorld} (run : Traced IpblockWorld.step (ipblockStart clock) history world) :
    IpblockRun clock history world := by
  induction run with
  | start => exact .start
  | step _ taken inductionHypothesis => exact .step inductionHypothesis taken

/-- Events that can be taken one after another are a run. -/
theorem ipblockRun_traceAll {clock : Nat} {events : List IpblockEvent}
    {history : List (IpblockWorld × IpblockEvent)} {world : IpblockWorld}
    (executed : traceAll IpblockWorld.step (ipblockStart clock) events = some (history, world)) :
    IpblockRun clock history world :=
  ipblockRun_of_traced (Traced.start.traceAll executed)

/-- The events of a history as actions on the keyed table. -/
def viewHistory (history : List (IpblockWorld × IpblockEvent)) :
    List (KeyedTable Bytes × KeyedAction Bytes) :=
  history.map fun visited => (visited.1.view, visited.1.action visited.2)

theorem IpblockRun.view {clock : Nat} {history : List (IpblockWorld × IpblockEvent)}
    {world : IpblockWorld} (run : IpblockRun clock history world) :
    Traced KeyedTable.act .empty (viewHistory history) world.view :=
  run.traced.map fun _ _ _ taken => IpblockWorld.step_view taken

/-- In every state of a run, the record the table has for an address is one of that address. -/
theorem IpblockRun.sound {clock : Nat} {history : List (IpblockWorld × IpblockEvent)}
    {world : IpblockWorld} (run : IpblockRun clock history world) : world.view.Sound := by
  refine run.view.invariant KeyedTable.sound_empty fun visited _ sound next taken => ?_
  obtain rfl : visited.1.apply visited.2 = next := Option.some.inj taken
  exact sound.apply visited.2

theorem viewHistory_condemnsRecord (history : List (IpblockWorld × IpblockEvent)) :
    ∀ visited ∈ viewHistory history, visited.1.CondemnsRecord visited.2 := by
  intro visited member
  obtain ⟨old, _, rfl⟩ := List.mem_map.mp member
  exact old.1.condemnsRecord_action old.2

/-! ### Removals of expired records -/

/-- Whatever record leaves the table when a worker removes what it found expired is that record. -/
def IpblockWorld.RemovesExpired (world : IpblockWorld) : Prop :=
  ∀ worker place next peerName other, world.tasks worker = .removing place →
    world.step (.acceptRemove worker) = some next → world.table peerName = some other →
    next.table peerName = none → other = place

/-- No record of an address is inserted while a worker stands between finding another record of
that address expired and removing it, and no check finds a record expired that another one has
replaced in the table. -/
def IpblockWorld.ReplacesSafely (world : IpblockWorld) (event : IpblockEvent) : Prop :=
  world.view.ReplacesSafely (world.action event)

theorem IpblockWorld.removes_eq_some {world : IpblockWorld} {worker place : Nat} :
    world.view.removing worker = some place ↔ world.tasks worker = .removing place := by
  show (world.tasks worker).removes = some place ↔ _
  cases world.tasks worker <;> simp [IpblockTask.removes]

theorem IpblockWorld.getElem?_view {world : IpblockWorld} {place : Nat} :
    world.view.records[place]? = world.records[place]?.map fun stdipbr => stdipbr.keyed :=
  List.getElem?_map

theorem IpblockWorld.removesExpired_iff (world : IpblockWorld) :
    world.RemovesExpired ↔ world.view.OwnRemovals := by
  constructor
  · intro removes worker place record other about found there
    rw [IpblockWorld.removes_eq_some] at about
    obtain ⟨stdipbr, held, rfl⟩ := Option.map_eq_some_iff.mp
      (IpblockWorld.getElem?_view.symm.trans found)
    have taken : world.step (.acceptRemove worker) =
        some ((world.remove stdipbr.ipAddr).withTask worker .idle) := by
      rw [IpblockWorld.step, about]
      simp only [held, Option.map_some]
    exact removes worker place _ stdipbr.ipAddr other about taken there (if_pos rfl)
  · intro own worker place next peerName other about taken there gone
    rw [IpblockWorld.step, about] at taken
    obtain ⟨stdipbr, found, rfl⟩ := Option.map_eq_some_iff.mp taken
    have named : peerName = stdipbr.ipAddr := by
      by_contra ne
      have kept : (if peerName = stdipbr.ipAddr then none else world.table peerName) = none := gone
      rw [if_neg ne, there] at kept
      cases kept
    refine own worker place stdipbr.keyed other (IpblockWorld.removes_eq_some.mpr about) ?_ ?_
    · rw [IpblockWorld.getElem?_view, found]
      rfl
    · show world.table stdipbr.ipAddr = some other
      rw [← named]
      exact there

/-- In a run of any number of workers and the control thread, every removal that a worker is about
to make takes nothing but the record it found expired, in every state, exactly if every step
replaces safely. -/
theorem expiry_removes_expired_iff {clock : Nat} {history : List (IpblockWorld × IpblockEvent)}
    {world : IpblockWorld} (run : IpblockRun clock history world) :
    ((∀ visited ∈ history, visited.1.RemovesExpired) ∧ world.RemovesExpired) ↔
      ∀ visited ∈ history, visited.1.ReplacesSafely visited.2 := by
  have keyed := KeyedTable.ownRemovals_iff run.view (viewHistory_condemnsRecord history)
  simp only [viewHistory, List.forall_mem_map] at keyed
  simp only [IpblockWorld.removesExpired_iff]
  exact keyed

/-- Two workers find the only record of an address expired. One removes it, the address is blocked
by a command, and then the other one removes what it finds under the address. -/
def racingRemovals : List IpblockEvent :=
  [.failureGet 0 [127, 0, 0, 1], .failureAdd 0, .tick 7200, .acceptGet 0 [127, 0, 0, 1],
    .acceptGet 1 [127, 0, 0, 1], .acceptCheck 0, .acceptCheck 1, .acceptRemove 0,
    .stdIpblock [127, 0, 0, 1]]

/-- The removal of an expired record takes out a manual one. -/
theorem manual_record_removed :
    ¬ ∀ clock history world, IpblockRun clock history world → world.RemovesExpired := by
  intro claim
  have run := @ipblockRun_traceAll 0 racingRemovals _ _ rfl
  have other := claim 0 _ _ run 1 0 _ [127, 0, 0, 1] 1 rfl rfl rfl rfl
  exact absurd other (by decide)

/-- A run in which the record that replaces an expired one is inserted after its removal. -/
theorem expiry_removes_expired_iff_one_worker :
    ∃ history world, IpblockRun 0 history world ∧
      (((∀ visited ∈ history, visited.1.RemovesExpired) ∧ world.RemovesExpired) ↔
        ∀ visited ∈ history, visited.1.ReplacesSafely visited.2) := by
  have run := @ipblockRun_traceAll 0 [.failureGet 0 [127, 0, 0, 1], .failureAdd 0, .tick 7200,
    .acceptGet 0 [127, 0, 0, 1], .acceptCheck 0, .acceptRemove 0, .stdIpblock [127, 0, 0, 1]] _ _ rfl
  exact ⟨_, _, run, expiry_removes_expired_iff run⟩

/-! ### Manual records -/

/-- Whether a manual block of an address is ordered after an event. -/
def IpblockEvent.orders (peerName : Bytes) (ordered : Bool) : IpblockEvent → Bool
  | .stdIpblock other => ordered || other = peerName
  | .stdUnblock other => ordered && other ≠ peerName
  | _ => ordered

/-- The last command about an address was `std_ipblock`. -/
def stdBlockOrdered (peerName : Bytes) (history : List (IpblockWorld × IpblockEvent)) : Bool :=
  (history.map Prod.snd).foldl (IpblockEvent.orders peerName) false

/-- `std_ipblock` is only processed for an address that has no automatic record and of which no
worker stands before the removal of an expired one, and no check finds a record of an address
expired where a manual one has replaced it in the table. -/
def IpblockWorld.BlocksSafely (peerName : Bytes) (world : IpblockWorld) (event : IpblockEvent) :
    Prop := world.view.PinsSafely peerName (world.action event)

/-- Every check of the record in a place that a history makes answers `RS_BLOCKED`. -/
def AllChecksBlock (place : Nat) (history : List (IpblockWorld × IpblockEvent)) : Prop :=
  ∀ visited ∈ history, ∀ worker, visited.2 = .acceptCheck worker →
    visited.1.tasks worker = .checking place → ∃ stdipbr : CountedRec,
      visited.1.records[place]? = some stdipbr ∧
        chkStdBlock stdipbr.toStdIpbRec visited.1.clock = .blocked

theorem pinOrder_action {peerName : Bytes} (valid : peerName ≠ inaddrNone) (ordered : Bool)
    (world : IpblockWorld) (event : IpblockEvent) :
    KeyedTable.pinOrder peerName ordered (world.action event) = event.orders peerName ordered := by
  cases event with
  | tick _ => rfl
  | acceptGet _ _ => rfl
  | acceptRemove _ => rfl
  | failureGet _ _ => rfl
  | failureCount _ => rfl
  | acceptCheck worker =>
    rw [IpblockWorld.action]
    split
    · split
      · split
        · rfl
        · rfl
      · rfl
    · rfl
  | failureAdd worker =>
    rw [IpblockWorld.action]
    split
    · rfl
    · rfl
  | stdIpblock other =>
    rw [IpblockWorld.action]
    split
    · rename_i none
      have different : other ≠ peerName := fun same => valid (same ▸ none)
      simp [KeyedTable.pinOrder, IpblockEvent.orders, different]
    · rfl
  | stdUnblock other =>
    rw [IpblockWorld.action]
    split
    · rename_i none
      have different : other ≠ peerName := fun same => valid (same ▸ none)
      simp [KeyedTable.pinOrder, IpblockEvent.orders, different]
    · rfl

theorem pinOrdered_viewHistory {peerName : Bytes} (valid : peerName ≠ inaddrNone)
    (history : List (IpblockWorld × IpblockEvent)) :
    KeyedTable.pinOrdered peerName ((viewHistory history).map Prod.snd) =
      stdBlockOrdered peerName history := by
  simp only [KeyedTable.pinOrdered, stdBlockOrdered, viewHistory, List.foldl_map,
    pinOrder_action valid]

/-- A connection that comes after a manual block finds a record that blocks it, whenever its worker
checks it. -/
theorem IpblockRun.rejects {clock : Nat} {peerName : Bytes} (valid : peerName ≠ inaddrNone)
    {history earlier later : List (IpblockWorld × IpblockEvent)} {world here : IpblockWorld}
    {event : IpblockEvent} (run : IpblockRun clock history world)
    (safe : ∀ visited ∈ history, visited.1.BlocksSafely peerName visited.2)
    (split : history = earlier ++ (here, event) :: later)
    (ordered : stdBlockOrdered peerName earlier = true) :
    ∃ place, here.table peerName = some place ∧ AllChecksBlock place later := by
  have same : viewHistory history =
      viewHistory earlier ++ (here.view, here.action event) :: viewHistory later := by
    rw [split, viewHistory, List.map_append, List.map_cons]
    rfl
  have pins : ∀ visited ∈ viewHistory history, visited.1.PinsSafely peerName visited.2 := by
    intro visited member
    obtain ⟨old, inside, rfl⟩ := List.mem_map.mp member
    exact safe old inside
  obtain ⟨place, there, stays⟩ := KeyedTable.pinned_lookup run.view
    (viewHistory_condemnsRecord history) pins same
    ((pinOrdered_viewHistory valid earlier).trans ordered)
  refine ⟨place, there, ?_⟩
  intro visited member worker _ _
  have held := stays _ (List.mem_map_of_mem member)
  rw [IpblockWorld.getElem?_view] at held
  obtain ⟨stdipbr, found, keyed⟩ := Option.map_eq_some_iff.mp held
  have manual : stdipbr.isManual = true := congrArg KeyedRecord.pinned keyed
  refine ⟨stdipbr, found, ?_⟩
  rw [chkStdBlock, manual]
  rfl

/-! ### Failed authentications -/

namespace IpblockWorld

/-- A worker is done with the accounting of a failed authentication, and answers it. -/
def answers (world : IpblockWorld) (peerName : Bytes) : IpblockEvent → Bool
  | .failureCount worker =>
    match world.tasks worker with
    | .counting place => (world.records[place]?).any fun stdipbr => stdipbr.ipAddr = peerName
    | _ => false
  | .failureAdd worker => world.tasks worker = .creating peerName
  | _ => false

/-- A worker inserts the record of a failed authentication, and there is one by now. -/
def losesInsertion (world : IpblockWorld) (peerName : Bytes) : IpblockEvent → Bool
  | .failureAdd worker =>
    decide (world.tasks worker = .creating peerName) && (world.table peerName).isSome
  | _ => false

/-- The event takes the record of an address out of the table. -/
def TakesOut (world : IpblockWorld) (peerName : Bytes) : IpblockEvent → Prop
  | .acceptRemove worker => ∃ place stdipbr, world.tasks worker = .removing place ∧
    world.records[place]? = some stdipbr ∧ stdipbr.ipAddr = peerName
  | .stdUnblock other => other = peerName
  | _ => False

end IpblockWorld

/-- How many failed authentications from an address were answered. -/
def answered (peerName : Bytes) (history : List (IpblockWorld × IpblockEvent)) : Nat :=
  history.countP fun visited => visited.1.answers peerName visited.2

/-- How many of them lost the race to insert the first record. -/
def lostInsertions (peerName : Bytes) (history : List (IpblockWorld × IpblockEvent)) : Nat :=
  history.countP fun visited => visited.1.losesInsertion peerName visited.2

/-- A record is the only one of its address, and the failed authentications that were answered are
those it counted and those that lost the race to insert one. -/
structure CountsAll (peerName : Bytes) (history : List (IpblockWorld × IpblockEvent))
    (world : IpblockWorld) (place : Nat) (stdipbr : CountedRec) : Prop where
  there : world.table peerName = some place
  found : world.records[place]? = some stdipbr
  named : stdipbr.ipAddr = peerName
  only : ∀ other record, world.records[other]? = some record → record.ipAddr = peerName →
    other = place
  total : stdipbr.counted + lostInsertions peerName history = answered peerName history

/-- The failed authentications of an address are accounted for. -/
inductive Accounted (peerName : Bytes) (history : List (IpblockWorld × IpblockEvent))
    (world : IpblockWorld) : Prop
  | missing (missing : world.table peerName = none)
    (unmade : ∀ record ∈ world.records, record.ipAddr ≠ peerName)
    (nothing : answered peerName history = 0) (noLoss : lostInsertions peerName history = 0)
  | present (place : Nat) (stdipbr : CountedRec)
    (counts : CountsAll peerName history world place stdipbr)

section
variable {peerName : Bytes} {history : List (IpblockWorld × IpblockEvent)}
  {world next : IpblockWorld} {event : IpblockEvent}

theorem answered_append : answered peerName (history ++ [(world, event)]) =
    answered peerName history + if world.answers peerName event then 1 else 0 := by
  rw [answered, answered, List.countP_append, List.countP_singleton]

theorem lostInsertions_append : lostInsertions peerName (history ++ [(world, event)]) =
    lostInsertions peerName history + if world.losesInsertion peerName event then 1 else 0 := by
  rw [lostInsertions, lostInsertions, List.countP_append, List.countP_singleton]

/-- A step that answers nothing, and does nothing about the records of the address. -/
theorem Accounted.keep (accounted : Accounted peerName history world)
    (silent : world.answers peerName event = false)
    (table : next.table peerName = world.table peerName)
    (records : next.records = world.records) :
    Accounted peerName (history ++ [(world, event)]) next := by
  have unlost : world.losesInsertion peerName event = false := by
    cases event with
    | failureAdd worker =>
      have busy : ¬ world.tasks worker = .creating peerName := of_decide_eq_false silent
      simp [IpblockWorld.losesInsertion, busy]
    | _ => rfl
  have same : answered peerName (history ++ [(world, event)]) = answered peerName history := by
    simp [answered_append, silent]
  have sameLost : lostInsertions peerName (history ++ [(world, event)]) =
      lostInsertions peerName history := by
    simp [lostInsertions_append, unlost]
  cases accounted with
  | missing missing unmade nothing noLoss =>
    refine .missing (table.trans missing) ?_ (same.trans nothing) (sameLost.trans noLoss)
    rw [records]
    exact unmade
  | present place stdipbr counts =>
    refine .present place stdipbr ⟨table.trans counts.there, ?_, counts.named, ?_, ?_⟩
    · rw [records]
      exact counts.found
    · rw [records]
      exact counts.only
    · rw [same, sameLost]
      exact counts.total

/-- A record of another address is inserted. -/
theorem Accounted.addOther (accounted : Accounted peerName history world) {other : Bytes}
    {isManual : Bool} (ne : other ≠ peerName)
    (silent : world.answers peerName event = false)
    (table : next.table = (world.add other isManual).table)
    (records : next.records = (world.add other isManual).records) :
    Accounted peerName (history ++ [(world, event)]) next := by
  rw [IpblockWorld.add] at table records
  cases held : world.table other with
  | some place =>
    rw [held] at table records
    exact accounted.keep silent (congrFun table peerName) records
  | none =>
    rw [held] at table records
    have kept := accounted.keep silent rfl rfl
    have there : next.table peerName = world.table peerName := by
      rw [table]
      exact if_neg (Ne.symm ne)
    cases kept with
    | missing missing unmade nothing noLoss =>
      refine .missing (there.trans missing) ?_ nothing noLoss
      rw [records, List.forall_mem_append, List.forall_mem_singleton]
      exact ⟨unmade, ne⟩
    | present place stdipbr counts =>
      refine .present place stdipbr ⟨there.trans counts.there, ?_, counts.named, ?_, counts.total⟩
      · rw [records, List.getElem?_append_left (List.getElem?_eq_some_iff.mp counts.found).1]
        exact counts.found
      · intro position record found named
        rw [records] at found
        by_cases old : position < world.records.length
        · rw [List.getElem?_append_left old] at found
          exact counts.only position record found named
        · rw [List.getElem?_append_right (Nat.le_of_not_lt old)] at found
          obtain rfl := List.mem_singleton.mp (List.mem_of_getElem? found)
          exact absurd named ne

/-- A record of the address is inserted, or refused where there is one. -/
theorem Accounted.addOwn (accounted : Accounted peerName history world) {isManual : Bool}
    (answer : world.answers peerName event = !isManual)
    (loss : world.losesInsertion peerName event =
      (!isManual && (world.table peerName).isSome))
    (table : next.table = (world.add peerName isManual).table)
    (records : next.records = (world.add peerName isManual).records) :
    Accounted peerName (history ++ [(world, event)]) next := by
  rw [IpblockWorld.add] at table records
  cases accounted with
  | missing missing unmade nothing noLoss =>
    rw [missing] at table records
    refine .present world.records.length
      ⟨stdIpbRecCreate peerName isManual world.clock,
        (stdIpbRecCreate peerName isManual world.clock).failedAuths.toNat⟩
      ⟨?_, ?_, rfl, ?_, ?_⟩
    · rw [table]
      exact if_pos rfl
    · rw [records]
      exact List.getElem?_concat_length
    · intro position record found named
      rw [records] at found
      by_cases old : position < world.records.length
      · rw [List.getElem?_append_left old] at found
        exact absurd named (unmade record (List.mem_of_getElem? found))
      · have within := (List.getElem?_eq_some_iff.mp found).1
        simp only [List.length_append, List.length_singleton] at within
        omega
    · rw [answered_append, lostInsertions_append, nothing, noLoss, answer, loss, missing]
      cases isManual <;> rfl
  | present place stdipbr counts =>
    rw [counts.there] at table records loss
    refine .present place stdipbr ⟨?_, ?_, counts.named, ?_, ?_⟩
    · rw [table]
      exact counts.there
    · rw [records]
      exact counts.found
    · rw [records]
      exact counts.only
    · rw [answered_append, lostInsertions_append, answer, loss, ← counts.total]
      cases isManual <;> simp [Nat.add_assoc]

/-- A failed authentication is counted in the record of the address, or in that of another. -/
theorem Accounted.count (accounted : Accounted peerName history world) {worker position : Nat}
    (task : world.tasks worker = .counting position) (table : next.table = world.table)
    (records : next.records = (world.count position).records) :
    Accounted peerName (history ++ [(world, .failureCount worker)]) next := by
  have unlost : world.losesInsertion peerName (.failureCount worker) = false := rfl
  cases accounted with
  | missing missing unmade nothing noLoss =>
    have silent : world.answers peerName (.failureCount worker) = false := by
      simp only [IpblockWorld.answers, task, Option.any_eq_false_iff_get,
        decide_eq_false_iff_not]
      intro present
      exact unmade _ (List.mem_of_getElem? (Option.some_get present).symm)
    refine .missing ?_ ?_ ?_ ?_
    · rw [table]
      exact missing
    · intro record member
      rw [records] at member
      obtain ⟨other, found⟩ := List.mem_iff_getElem?.mp member
      rw [getElem?_count] at found
      split at found
      · obtain ⟨before, there, rfl⟩ := Option.map_eq_some_iff.mp found
        exact unmade before (List.mem_of_getElem? there)
      · exact unmade record (List.mem_of_getElem? found)
    · rw [answered_append, nothing, silent]
      rfl
    · rw [lostInsertions_append, noLoss, unlost]
      rfl
  | present place stdipbr counts =>
    have only : ∀ other record, next.records[other]? = some record →
        record.ipAddr = peerName → other = place := by
      intro other record found named
      rw [records, getElem?_count] at found
      split at found
      · obtain ⟨before, there, rfl⟩ := Option.map_eq_some_iff.mp found
        exact counts.only other before there named
      · exact counts.only other record found named
    by_cases same : position = place
    · subst same
      have answer : world.answers peerName (.failureCount worker) = true := by
        simp [IpblockWorld.answers, task, counts.found, counts.named]
      refine .present position ⟨stdipbr.countFailure, stdipbr.counted + 1⟩
        ⟨?_, ?_, counts.named, only, ?_⟩
      · rw [table]
        exact counts.there
      · rw [records, getElem?_count, if_pos rfl, counts.found]
        rfl
      · rw [answered_append, lostInsertions_append, answer, unlost, ← counts.total]
        simp only [if_true, Bool.false_eq_true, if_false]
        omega
    · have silent : world.answers peerName (.failureCount worker) = false := by
        simp only [IpblockWorld.answers, task, Option.any_eq_false_iff_get,
        decide_eq_false_iff_not]
        intro present named
        exact same (counts.only position _ (Option.some_get present).symm named)
      refine .present place stdipbr ⟨?_, ?_, counts.named, only, ?_⟩
      · rw [table]
        exact counts.there
      · rw [records, getElem?_count, if_neg same]
        exact counts.found
      · rw [answered_append, lostInsertions_append, silent, unlost]
        exact counts.total

theorem Accounted.step (accounted : Accounted peerName history world)
    (taken : world.step event = some next) (kept : ¬ world.TakesOut peerName event) :
    Accounted peerName (history ++ [(world, event)]) next := by
  cases IpblockWorld.step_taken taken with
  | @removed worker place stdipbr task there =>
    have ne : peerName ≠ stdipbr.ipAddr := fun same =>
      kept ⟨place, stdipbr, task, there, same.symm⟩
    exact accounted.keep rfl (if_neg ne) rfl
  | counted task => exact accounted.count task rfl rfl
  | @added worker other task =>
    by_cases same : other = peerName
    · subst same
      exact accounted.addOwn (by simp [IpblockWorld.answers, task])
        (by simp [IpblockWorld.losesInsertion, task]) rfl rfl
    · exact accounted.addOther same (by simp [IpblockWorld.answers, task, same]) rfl rfl
  | @blocked other proper =>
    by_cases same : other = peerName
    · subst same
      exact @Accounted.addOwn _ _ _ _ _ accounted true rfl rfl rfl rfl
    · exact accounted.addOther same rfl rfl rfl
  | @unblocked other proper =>
    have ne : peerName ≠ other := fun same => kept same.symm
    exact accounted.keep rfl (if_neg ne) rfl
  | _ => exact accounted.keep rfl rfl rfl

end

theorem IpblockRun.accounted {clock : Nat} {peerName : Bytes}
    {history : List (IpblockWorld × IpblockEvent)} {world : IpblockWorld}
    (run : IpblockRun clock history world)
    (kept : ∀ visited ∈ history, ¬ visited.1.TakesOut peerName visited.2) :
    Accounted peerName history world := by
  induction run with
  | start => exact .missing rfl (by simp [ipblockStart]) rfl rfl
  | step _ taken inductionHypothesis =>
    rw [List.forall_mem_append, List.forall_mem_singleton] at kept
    exact (inductionHypothesis kept.1).step taken kept.2

/-- The counter of a record is the number of failed authentications counted in it, as a byte. -/
theorem IpblockRun.counter {clock : Nat} {history : List (IpblockWorld × IpblockEvent)}
    {world : IpblockWorld} (run : IpblockRun clock history world) :
    ∀ stdipbr ∈ world.records, stdipbr.failedAuths = UInt8.ofNat stdipbr.counted := by
  induction run with
  | start => simp [ipblockStart]
  | step _ taken inductionHypothesis =>
    cases IpblockWorld.step_moved taken with
    | kept same later =>
      rw [same]
      exact inductionHypothesis
    | made peerName isManual clock added =>
      rw [added, List.forall_mem_append, List.forall_mem_singleton]
      exact ⟨inductionHypothesis, UInt8.ofNat_toNat.symm⟩
    | counted worker place event task clock bumped =>
      intro stdipbr member
      rw [bumped] at member
      obtain ⟨other, found⟩ := List.mem_iff_getElem?.mp member
      rw [getElem?_count] at found
      split at found
      · obtain ⟨before, there, rfl⟩ := Option.map_eq_some_iff.mp found
        rw [StdIpbRec.countFailure, inductionHypothesis before (List.mem_of_getElem? there),
          UInt8.ofNat_add]
        rfl
      · exact inductionHypothesis stdipbr (List.mem_of_getElem? found)

/-- In a run in which at most 255 authentications from an address fail and its record is not taken
out, the record is there and its counter is the number of those that were answered, exactly if no
worker inserts a record where there is one by then. -/
theorem failures_counted_iff {clock : Nat} {peerName : Bytes}
    {history : List (IpblockWorld × IpblockEvent)} {world : IpblockWorld}
    (run : IpblockRun clock history world)
    (kept : ∀ visited ∈ history, ¬ visited.1.TakesOut peerName visited.2)
    (failed : 0 < answered peerName history) (atMost : answered peerName history ≤ 255) :
    (∃ place stdipbr, world.table peerName = some place ∧ world.records[place]? = some stdipbr ∧
        stdipbr.failedAuths.toNat = answered peerName history) ↔
      ∀ visited ∈ history, visited.1.losesInsertion peerName visited.2 = false := by
  have noLoss : lostInsertions peerName history = 0 ↔
      ∀ visited ∈ history, visited.1.losesInsertion peerName visited.2 = false := by
    rw [lostInsertions, List.countP_eq_zero]
    simp only [Bool.not_eq_true]
  rw [← noLoss]
  cases run.accounted kept with
  | missing _ _ nothing _ => omega
  | present place stdipbr counts =>
    have counter : stdipbr.failedAuths.toNat = stdipbr.counted := by
      have total := counts.total
      rw [run.counter stdipbr (List.mem_of_getElem? counts.found), UInt8.toNat_ofNat']
      exact Nat.mod_eq_of_lt (by omega)
    have total := counts.total
    constructor
    · rintro ⟨other, record, there, found, all⟩
      obtain rfl := Option.some.inj (counts.there.symm.trans there)
      obtain rfl := Option.some.inj (counts.found.symm.trans found)
      omega
    · intro none
      exact ⟨place, stdipbr, counts.there, counts.found, by omega⟩

/-- A failed authentication is counted in the record another one has inserted. -/
def orderlyFailures : List IpblockEvent :=
  [.failureGet 0 [127, 0, 0, 1], .failureAdd 0, .failureGet 1 [127, 0, 0, 1], .failureCount 1]

/-- A run in which the second authentication fails after the first one is accounted for. -/
theorem failures_counted_iff_orderly :
    ∃ history world, IpblockRun 0 history world ∧ answered [127, 0, 0, 1] history = 2 ∧
      ((∃ place stdipbr, world.table [127, 0, 0, 1] = some place ∧
          world.records[place]? = some stdipbr ∧
          stdipbr.failedAuths.toNat = answered [127, 0, 0, 1] history) ↔
        ∀ visited ∈ history, visited.1.losesInsertion [127, 0, 0, 1] visited.2 = false) := by
  have executed := @rfl _ (traceAll IpblockWorld.step (ipblockStart 0) orderlyFailures)
  have run := @ipblockRun_traceAll 0 orderlyFailures _ _ rfl
  have kept : ∀ event ∈ orderlyFailures, ∀ world : IpblockWorld,
      ¬ world.TakesOut [127, 0, 0, 1] event := by
    simp [orderlyFailures, IpblockWorld.TakesOut]
  exact ⟨_, _, run, by decide, failures_counted_iff run
    (fun visited member => kept visited.2
      (traceAll_events executed ▸ List.mem_map_of_mem member) visited.1) (by decide) (by decide)⟩

/-- Two workers look for the record of an address before either of them has inserted one. -/
def racingFailures : List IpblockEvent :=
  [.failureGet 0 [127, 0, 0, 1], .failureGet 1 [127, 0, 0, 1], .failureAdd 0, .failureAdd 1]

/-- Of two failed authentications, one is not counted. -/
theorem failure_uncounted :
    ¬ ∀ clock peerName history world, IpblockRun clock history world →
      (∀ visited ∈ history, ¬ visited.1.TakesOut peerName visited.2) →
      0 < answered peerName history → answered peerName history ≤ 255 →
      (∀ worker, world.tasks worker = .idle) →
      ∃ place stdipbr, world.table peerName = some place ∧ world.records[place]? = some stdipbr ∧
        stdipbr.failedAuths.toNat = answered peerName history := by
  intro claim
  have executed := @rfl _ (traceAll IpblockWorld.step (ipblockStart 0) racingFailures)
  have run := @ipblockRun_traceAll 0 racingFailures _ _ rfl
  have kept : ∀ event ∈ racingFailures, ∀ world : IpblockWorld,
      ¬ world.TakesOut [127, 0, 0, 1] event := by
    simp [racingFailures, IpblockWorld.TakesOut]
  obtain ⟨place, stdipbr, there, found, all⟩ := claim 0 [127, 0, 0, 1] _ _ run
    (fun visited member => kept visited.2
      (traceAll_events executed ▸ List.mem_map_of_mem member) visited.1)
    (by decide) (by decide) (by rintro (_ | _ | worker) <;> rfl)
  cases there
  cases found
  exact absurd all (by decide)

end Lwmsg
