/-
This file is about the control commands `std_ipblock` and `reg_ipblock`: from a command that blocks
an address to the command that unblocks it, connections from the address are rejected.

The registration thread is seen as the only agent of a keyed table, as the workers are seen as its
agents in `IpblockWorld.view`, and both commands rest on the same rule about pinned records.
-/

import Lwmsg.RegistrationRuns

namespace Lwmsg

open Bytes Pointers

/-! ### The keys of the records of registrations -/

/-- The place the registration thread is about to remove the record of. -/
def RegblockTask.removes : RegblockTask → Option Nat
  | .removing place => some place
  | .idle | .checking _ | .managing _ _ | .counting _ _ | .creating _ _ => none

/-- A record that a control command made is pinned. -/
def RegIpbRec.keyed (ripbr : RegIpbRec) : KeyedRecord Bytes := ⟨ripbr.ipAddr, ripbr.isManual⟩

namespace RegblockWorld

/-- The table of the records with their keys. The registration thread is agent 0. -/
def view (world : RegblockWorld) : KeyedTable Bytes where
  records := world.records.map fun ripbr => ripbr.keyed
  table := world.table
  removing := Function.update (fun _ => none) 0 world.task.removes

/-- What an event does to the table of the keys. -/
def action (world : RegblockWorld) : RegblockEvent → KeyedAction Bytes
  | .acceptCheck =>
    match world.task with
    | .checking place =>
      match world.records[place]? with
      | some ripbr =>
        if chkRegBlock ripbr.toRegIpbRec world.clock = .expired then .condemn 0 place else .keep
      | none => .keep
    | _ => .keep
  | .acceptRemove => .removeFound 0
  | .manageAdd =>
    match world.task with
    | .creating peerName _ => .insert peerName false
    | _ => .keep
  | .regIpblock peerName => if peerName = inaddrNone then .keep else .insert peerName true
  | .regUnblock peerName => if peerName = inaddrNone then .keep else .remove peerName
  | .tick _ | .acceptGet _ | .disconnect _ | .request _ _ _ | .postMortem _ _ _ | .manageGet
  | .manageCount => .keep

theorem keyed_countAttempt (ripbr : RegIpbRec) (reason : RecordReason) :
    (ripbr.countAttempt reason).keyed = ripbr.keyed := by
  rw [RegIpbRec.countAttempt]
  split
  · rfl
  · rfl

/-- Only the keys of the records, the table and what is about to be removed are seen. -/
theorem view_congr {world other : RegblockWorld}
    (records : (other.records.map fun ripbr => ripbr.keyed) =
      world.records.map fun ripbr => ripbr.keyed)
    (table : other.table = world.table) (removes : other.task.removes = world.task.removes) :
    other.view = world.view := by
  rw [view, view, records, table, removes]

/-- Changing a record without its key is not seen. -/
theorem map_keyed_modify {records : List RegisteredRec} {place : Nat}
    {change : RegisteredRec → RegisteredRec} (same : ∀ ripbr, (change ripbr).keyed = ripbr.keyed) :
    ((records.modify place change).map fun ripbr => ripbr.keyed) =
      records.map fun ripbr => ripbr.keyed := by
  apply List.ext_getElem?
  intro other
  rw [List.getElem?_map, List.getElem?_map, List.getElem?_modify]
  cases records[other]? with
  | none => rfl
  | some ripbr =>
    by_cases equal : place = other
    · simp [equal, same]
    · simp [equal]

theorem view_count (world : RegblockWorld) (place : Nat) (reason : RecordReason) :
    (world.count place reason).view = world.view :=
  view_congr (map_keyed_modify fun ripbr => keyed_countAttempt ripbr.toRegIpbRec reason) rfl rfl

theorem view_register (world : RegblockWorld) (peerName : Bytes) :
    (world.register peerName).view = world.view := by
  rw [register]
  split
  · rfl
  · refine view_congr (map_keyed_modify fun ripbr => ?_) rfl rfl
    split
    · rfl
    · rfl

theorem view_execute (sha256 : Bytes → Bytes) (world : RegblockWorld) (peerName : Bytes)
    (req : AuthReqGroup) (busy : Bool) :
    (world.execute sha256 peerName req busy).2.view = world.view := by
  obtain ⟨users, clients, ⟨executed, _⟩ | ⟨result, executed, _⟩⟩ :=
    world.execute_cases sha256 peerName req busy
  · rw [executed]
    exact view_register { world with users, clients } peerName
  · rw [executed]
    rfl

theorem task_execute (sha256 : Bytes → Bytes) (world : RegblockWorld) (peerName : Bytes)
    (req : AuthReqGroup) (busy : Bool) :
    (world.execute sha256 peerName req busy).2.task = world.task := by
  obtain ⟨users, clients, ⟨executed, _⟩ | ⟨result, executed, _⟩⟩ :=
    world.execute_cases sha256 peerName req busy
  · rw [executed]
    exact (register_same { world with users, clients } peerName).2.2
  · rw [executed]

/-- A task that is not about to remove anything leaves the keys as they are. -/
theorem view_withTask {world : RegblockWorld} {task : RegblockTask}
    (same : task.removes = world.task.removes) : { world with task }.view = world.view :=
  view_congr rfl rfl same

theorem view_track {world : RegblockWorld} (settled : world.task.removes = none)
    (peerName : Bytes) : (world.track peerName).view = world.view :=
  view_congr rfl rfl settled.symm

theorem view_add (world : RegblockWorld) (peerName : Bytes) (reason : RecordReason) :
    (world.add peerName reason).view =
      world.view.apply (.insert peerName (reason = .manual)) := by
  cases held : world.table peerName with
  | some place =>
    have there : world.view.table peerName = some place := held
    rw [add, held, KeyedTable.apply, there]
  | none =>
    have missing : world.view.table peerName = none := held
    rw [add, held, KeyedTable.apply, missing]
    simp only [view, List.map_append, List.map_cons, List.map_nil, List.length_map]
    rfl

theorem view_remove (world : RegblockWorld) (peerName : Bytes) :
    (world.remove peerName).view = world.view.apply (.remove peerName) := rfl

/-- Every step is a step of the keyed table. -/
theorem step_view {sha256 : Bytes → Bytes} {world next : RegblockWorld} {event : RegblockEvent}
    (taken : world.step sha256 event = some next) :
    world.view.act (world.action event) = some next.view := by
  refine congrArg some ?_
  cases step_taken taken with
  | tick seconds => rfl
  | checking task there => exact (view_withTask (by rw [task]; rfl)).symm
  | unknown task missing => exact (view_track (by rw [task]; rfl) _).symm
  | @expired place ripbr task there expired =>
    simp only [action, task, there, expired, if_true]
    show KeyedTable.apply world.view (.condemn 0 place) = _
    simp only [KeyedTable.apply, view, Function.update_idem]
    rfl
  | blocked task there blocked =>
    simp only [action, task, there, blocked, reduceCtorEq, if_false]
    exact (view_withTask (by rw [task]; rfl)).symm
  | passed task there passed =>
    simp only [action, task, there, passed, reduceCtorEq, if_false]
    exact (view_track (by rw [task]; rfl) _).symm
  | @removed place ripbr task found =>
    have about : world.view.removing 0 = some place := by
      show Function.update (fun _ => none) 0 world.task.removes 0 = some place
      rw [Function.update_self, task]
      rfl
    have there : world.view.records[place]? = some ripbr.keyed := by
      show (world.records.map fun ripbr => ripbr.keyed)[place]? = _
      rw [List.getElem?_map, found]
      rfl
    simp only [action, KeyedTable.apply, about, Option.bind_some, there]
    simp only [view, track, remove, Function.update_idem]
    rfl
  | disconnect task => rfl
  | @managed peerName req busy task tracked counts =>
    have executed := view_execute sha256 world peerName req busy
    have same := task_execute sha256 world peerName req busy
    exact (view_withTask (by rw [same, task]; rfl)).trans executed |>.symm
  | @unmanaged peerName req busy task tracked counts =>
    exact (view_execute sha256 world peerName req busy).symm
  | @postMortem peerName req busy task tracked =>
    exact (view_execute sha256 world peerName req busy).symm
  | counting task there => exact (view_withTask (by rw [task]; rfl)).symm
  | creating task missing => exact (view_withTask (by rw [task]; rfl)).symm
  | @counted place requestResult task =>
    have same : (world.count place (ripbReason requestResult)).task.removes =
        RegblockTask.idle.removes := by
      rw [count, task]
      rfl
    exact ((view_withTask same.symm).trans (view_count world place _)).symm
  | @added peerName requestResult task =>
    have same : (world.add peerName (ripbReason requestResult)).task.removes =
        RegblockTask.idle.removes := by
      have kept : (world.add peerName (ripbReason requestResult)).task = world.task := by
        rw [add]
        split
        · rfl
        · rfl
      rw [kept, task]
      rfl
    have attempt : decide (ripbReason requestResult = .manual) = false := by
      cases requestResult <;> rfl
    rw [view_withTask same.symm, view_add, attempt]
    simp only [action, task]
  | notOrdered =>
    rw [action, if_pos rfl]
    rfl
  | ordered proper =>
    rw [action, if_neg proper]
    exact (view_add world _ .manual).symm
  | notLifted =>
    rw [action, if_pos rfl]
    rfl
  | lifted proper =>
    rw [action, if_neg proper]
    exact (view_remove world _).symm

theorem condemnsRecord_action (world : RegblockWorld) (event : RegblockEvent) :
    world.view.CondemnsRecord (world.action event) := by
  cases event with
  | acceptCheck =>
    rw [action]
    split
    · split
      · rename_i place _ _ ripbr found
        split
        · show place < (world.records.map fun ripbr => ripbr.keyed).length
          rw [List.length_map]
          exact (List.getElem?_eq_some_iff.mp found).1
        · trivial
      · trivial
    · trivial
  | manageAdd =>
    rw [action]
    split
    · trivial
    · trivial
  | regIpblock peerName =>
    rw [action]
    split
    · trivial
    · trivial
  | regUnblock peerName =>
    rw [action]
    split
    · trivial
    · trivial
  | tick _ => trivial
  | acceptGet _ => trivial
  | acceptRemove => trivial
  | disconnect _ => trivial
  | request _ _ _ => trivial
  | postMortem _ _ _ => trivial
  | manageGet => trivial
  | manageCount => trivial

end RegblockWorld

theorem RegblockWorld.getElem?_view {world : RegblockWorld} {place : Nat} :
    world.view.records[place]? = world.records[place]?.map fun ripbr => ripbr.keyed :=
  List.getElem?_map

/-! ### Commands -/

/-- Whether a manual block of an address is ordered after an event. -/
def RegblockEvent.orders (peerName : Bytes) (ordered : Bool) : RegblockEvent → Bool
  | .regIpblock other => ordered || other = peerName
  | .regUnblock other => ordered && other ≠ peerName
  | _ => ordered

/-- The last command about an address was `reg_ipblock`. -/
def regBlockOrdered (peerName : Bytes) (history : List (RegblockWorld × RegblockEvent)) : Bool :=
  (history.map Prod.snd).foldl (RegblockEvent.orders peerName) false

/-- `reg_ipblock` is only processed for an address that has no automatic record and of which the
registration thread is not about to remove an expired one, and no check finds a record of an address
expired where a manual one has replaced it in the table. -/
def RegblockWorld.BlocksSafely (peerName : Bytes) (world : RegblockWorld) (event : RegblockEvent) :
    Prop := world.view.PinsSafely peerName (world.action event)

/-- Every check of the record in a place that a history makes answers `RS_BLOCKED`. -/
def AllRegChecksBlock (place : Nat) (history : List (RegblockWorld × RegblockEvent)) : Prop :=
  ∀ visited ∈ history, visited.2 = .acceptCheck → visited.1.task = .checking place →
    ∃ ripbr : RegisteredRec, visited.1.records[place]? = some ripbr ∧
      chkRegBlock ripbr.toRegIpbRec visited.1.clock = .blocked

theorem RegblockWorld.pinOrder_action {peerName : Bytes} (valid : peerName ≠ inaddrNone)
    (ordered : Bool) (world : RegblockWorld) (event : RegblockEvent) :
    KeyedTable.pinOrder peerName ordered (world.action event) = event.orders peerName ordered := by
  cases event with
  | acceptCheck =>
    rw [RegblockWorld.action]
    split
    · split
      · split
        · rfl
        · rfl
      · rfl
    · rfl
  | manageAdd =>
    rw [RegblockWorld.action]
    split
    · rfl
    · rfl
  | regIpblock other =>
    rw [RegblockWorld.action]
    split
    · rename_i none
      have different : other ≠ peerName := fun same => valid (same ▸ none)
      simp [KeyedTable.pinOrder, RegblockEvent.orders, different]
    · rfl
  | regUnblock other =>
    rw [RegblockWorld.action]
    split
    · rename_i none
      have different : other ≠ peerName := fun same => valid (same ▸ none)
      simp [KeyedTable.pinOrder, RegblockEvent.orders, different]
    · rfl
  | tick _ => rfl
  | acceptGet _ => rfl
  | acceptRemove => rfl
  | disconnect _ => rfl
  | request _ _ _ => rfl
  | postMortem _ _ _ => rfl
  | manageGet => rfl
  | manageCount => rfl

/-- A connection to the registration port that comes after a manual block finds a record that blocks
it, whenever it is checked. -/
theorem regblock_rejects {sha256 : Bytes → Bytes} {clock : Nat} {users : Users} {peerName : Bytes}
    (valid : peerName ≠ inaddrNone)
    {history earlier later : List (RegblockWorld × RegblockEvent)} {world here : RegblockWorld}
    {event : RegblockEvent}
    (run : Traced (RegblockWorld.step sha256) (regblockStart clock users) history world)
    (safe : ∀ visited ∈ history, visited.1.BlocksSafely peerName visited.2)
    (split : history = earlier ++ (here, event) :: later)
    (ordered : regBlockOrdered peerName earlier = true) :
    ∃ place, here.table peerName = some place ∧ AllRegChecksBlock place later := by
  let view := fun visited : RegblockWorld × RegblockEvent =>
    (visited.1.view, visited.1.action visited.2)
  have start : (regblockStart clock users).view = .empty := by
    simp [RegblockWorld.view, regblockStart, KeyedTable.empty, RegblockTask.removes]
  have seen := run.map fun _ _ _ taken => RegblockWorld.step_view taken
  rw [start] at seen
  have same : history.map view =
      earlier.map view ++ (here.view, here.action event) :: later.map view := by
    rw [split, List.map_append, List.map_cons]
  have exist : ∀ visited ∈ history.map view, visited.1.CondemnsRecord visited.2 := by
    intro visited member
    obtain ⟨old, _, rfl⟩ := List.mem_map.mp member
    exact old.1.condemnsRecord_action old.2
  have pins : ∀ visited ∈ history.map view, visited.1.PinsSafely peerName visited.2 := by
    intro visited member
    obtain ⟨old, inside, rfl⟩ := List.mem_map.mp member
    exact safe old inside
  have pinned : KeyedTable.pinOrdered peerName ((earlier.map view).map Prod.snd) = true := by
    rw [← ordered]
    simp only [KeyedTable.pinOrdered, regBlockOrdered, List.foldl_map, view,
      RegblockWorld.pinOrder_action valid]
  obtain ⟨place, there, stays⟩ := KeyedTable.pinned_lookup seen exist pins same pinned
  refine ⟨place, there, ?_⟩
  intro visited member _ _
  have held := stays _ (List.mem_map_of_mem member)
  rw [RegblockWorld.getElem?_view] at held
  obtain ⟨ripbr, found, keyed⟩ := Option.map_eq_some_iff.mp held
  have manual : ripbr.isManual = true := congrArg KeyedRecord.pinned keyed
  refine ⟨ripbr, found, ?_⟩
  rw [chkRegBlock, manual]
  rfl

/-- In runs that block safely, every connection from an address that a worker or the registration
thread accepts after a command has blocked the address finds a record that blocks it, whenever it is
checked, until another command unblocks the address. -/
theorem manual_block_effective {peerName : Bytes} (valid : peerName ≠ inaddrNone) :
    (∀ clock history world, IpblockRun clock history world →
      (∀ visited ∈ history, visited.1.BlocksSafely peerName visited.2) →
      ∀ earlier here worker later, history = earlier ++ (here, .acceptGet worker peerName) :: later →
        stdBlockOrdered peerName earlier = true →
        ∃ place, here.table peerName = some place ∧ AllChecksBlock place later) ∧
    ∀ sha256 clock users history world,
      Traced (RegblockWorld.step sha256) (regblockStart clock users) history world →
      (∀ visited ∈ history, visited.1.BlocksSafely peerName visited.2) →
      ∀ earlier here later, history = earlier ++ (here, .acceptGet peerName) :: later →
        regBlockOrdered peerName earlier = true →
        ∃ place, here.table peerName = some place ∧ AllRegChecksBlock place later :=
  ⟨fun _ _ _ run safe _ _ _ _ split ordered => run.rejects valid safe split ordered,
    fun _ _ _ _ _ run safe _ _ _ split ordered => regblock_rejects valid run safe split ordered⟩

/-- An address without a record is blocked by a command, and a connection from it is accepted. -/
def blockedConnection : List IpblockEvent :=
  [.stdIpblock [127, 0, 0, 1], .acceptGet 0 [127, 0, 0, 1], .acceptCheck 0]

theorem manual_block_effective_localhost :
    ∃ history earlier here later world, IpblockRun 0 history world ∧
      history = earlier ++ (here, .acceptGet 0 [127, 0, 0, 1]) :: later ∧
      ∃ place, here.table [127, 0, 0, 1] = some place ∧ AllChecksBlock place later := by
  have run := @ipblockRun_traceAll 0 blockedConnection _ _ rfl
  refine ⟨_, [_], _, [_], _, run, rfl, ?_⟩
  refine (manual_block_effective (by decide)).1 0 _ _ run ?_ [_] _ 0 [_] rfl rfl
  rintro visited (_ | ⟨_, _ | ⟨_, _ | ⟨_, none⟩⟩⟩)
  · rintro -
    refine ⟨.inl rfl, ?_⟩
    rintro ⟨agent, place, record, about, _⟩
    cases about
  · trivial
  · trivial
  · cases none

/-- An authentication fails before the command, and the connection comes after it. -/
def unblockedConnection : List IpblockEvent :=
  [.failureGet 0 [127, 0, 0, 1], .failureAdd 0, .stdIpblock [127, 0, 0, 1],
    .acceptGet 0 [127, 0, 0, 1], .acceptCheck 0]

/-- The command is refused, and the record that is there does not block the connection. -/
theorem manual_block_ineffective :
    ¬ ∀ clock peerName history world, peerName ≠ inaddrNone → IpblockRun clock history world →
      ∀ earlier here worker later, history = earlier ++ (here, .acceptGet worker peerName) :: later →
        stdBlockOrdered peerName earlier = true →
        ∃ place, here.table peerName = some place ∧ AllChecksBlock place later := by
  intro claim
  have run := @ipblockRun_traceAll 0 unblockedConnection _ _ rfl
  obtain ⟨place, there, checks⟩ :=
    claim 0 [127, 0, 0, 1] _ _ (by decide) run [_, _, _] _ 0 [_] rfl rfl
  cases there
  obtain ⟨stdipbr, found, blocked⟩ := checks _ (List.mem_singleton_self _) 0 rfl rfl
  cases found
  exact absurd blocked (by decide)

end Lwmsg
