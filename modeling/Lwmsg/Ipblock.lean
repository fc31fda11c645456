/-
This file models the blocking of an IP address after failed authentications:
`std_ipb_rec`, `chk_std_block` and `std_ipb_rec_create` of `server/ipblock.c`, what
`wt_handle_new_connections` and `wt_handle_authentication` of `server/worker.c` do
with the records, and the control commands `std_ipblock` and `std_unblock`.

Each operation on the table is one step, and so is each access to a record, so the
steps of the workers come in any order. A worker that found a record keeps it alive
until it is done with it, also where the record has left the table.
-/

import Lwmsg.Bytes

namespace Lwmsg

/-! ### Records -/

/-- `AUTHBLOCK_FAIL_THRES`. -/
@[simp] def authblockFailThres : UInt8 := 5

/-- `AUTHBLOCK_EXPIRY`, in seconds. -/
@[simp] def authblockExpiry : Nat := 3600

/-- `enum record_status`. -/
inductive RecordStatus
  | notBlocked
  | blocked
  | expired
  deriving DecidableEq, Repr

/-- `std_ipb_rec`. Of its timestamp only the seconds are looked at. -/
structure StdIpbRec where
  ipAddr : Bytes
  timestamp : Nat
  failedAuths : UInt8
  isManual : Bool
  deriving DecidableEq, Repr

/-- `std_ipb_rec_create`, at one moment of the monotonic clock. -/
def stdIpbRecCreate (peerName : Bytes) (isManual : Bool) (currTimestamp : Nat) : StdIpbRec where
  ipAddr := peerName
  timestamp := currTimestamp + authblockExpiry
  failedAuths := if isManual then 0 else 1
  isManual

/-- `chk_std_block`. The difference of two times has a sign. -/
def chkStdBlock (stdipbr : StdIpbRec) (currTimestamp : Nat) : RecordStatus :=
  if stdipbr.isManual then .blocked
  else if (currTimestamp : Int) - stdipbr.timestamp ≥ authblockExpiry then .expired
  else if stdipbr.failedAuths ≥ authblockFailThres then .blocked
  else .notBlocked

/-- `__atomic_fetch_add(&std_ipbr->failed_auths, 1)`. -/
def StdIpbRec.countFailure (stdipbr : StdIpbRec) : StdIpbRec :=
  { stdipbr with failedAuths := stdipbr.failedAuths + 1 }

/-- `INADDR_NONE`. `inet_addr` answers it for what is no address and for this address, which a
control command refuses for this reason. -/
def inaddrNone : Bytes := [255, 255, 255, 255]

/-! ### Workers and the table of records -/

/-- A record, with the number of failed authentications that were counted in it since it was made.
The program only keeps its counter. -/
structure CountedRec extends StdIpbRec where
  counted : Nat
  deriving DecidableEq, Repr

/-- What a worker is doing with the records, which have their places in the list of all that were
made. -/
inductive IpblockTask
  | idle
  | checking (place : Nat)
  | removing (place : Nat)
  | counting (place : Nat)
  | creating (peerName : Bytes)
  deriving DecidableEq, Repr

/-- The clock, the records that were made, the place of the record of an address, and the tasks of
the workers. -/
structure IpblockWorld where
  clock : Nat
  records : List CountedRec
  table : Bytes → Option Nat
  tasks : Nat → IpblockTask

inductive IpblockEvent
  | tick (seconds : Nat)
  | acceptGet (worker : Nat) (peerName : Bytes)
  | acceptCheck (worker : Nat)
  | acceptRemove (worker : Nat)
  | failureGet (worker : Nat) (peerName : Bytes)
  | failureCount (worker : Nat)
  | failureAdd (worker : Nat)
  | stdIpblock (peerName : Bytes)
  | stdUnblock (peerName : Bytes)
  deriving DecidableEq, Repr

namespace IpblockWorld

def withTask (world : IpblockWorld) (worker : Nat) (task : IpblockTask) : IpblockWorld :=
  { world with tasks := fun other => if other = worker then task else world.tasks other }

/-- `htable_remove`. -/
def remove (world : IpblockWorld) (peerName : Bytes) : IpblockWorld :=
  { world with table := fun other => if other = peerName then none else world.table other }

/-- A record is made and given to `htable_add`, which refuses it if there is one. -/
def add (world : IpblockWorld) (peerName : Bytes) (isManual : Bool) : IpblockWorld :=
  let stdipbr := stdIpbRecCreate peerName isManual world.clock
  match world.table peerName with
  | some _ => world
  | none =>
    { world with
      records := world.records ++ [⟨stdipbr, stdipbr.failedAuths.toNat⟩]
      table := fun other => if other = peerName then some world.records.length
        else world.table other }

/-- A failed authentication is counted in the record at a place. -/
def count (world : IpblockWorld) (place : Nat) : IpblockWorld :=
  { world with
    records := world.records.modify place fun stdipbr =>
      ⟨stdipbr.countFailure, stdipbr.counted + 1⟩ }

/-- One step, or nothing where the worker is doing something else. -/
def step (world : IpblockWorld) : IpblockEvent → Option IpblockWorld
  | .tick seconds => some { world with clock := world.clock + seconds }
  | .acceptGet worker peerName =>
    match world.tasks worker, world.table peerName with
    | .idle, some place => some (world.withTask worker (.checking place))
    | .idle, none => some world
    | _, _ => none
  | .acceptCheck worker =>
    match world.tasks worker with
    | .checking place =>
      world.records[place]?.map fun stdipbr =>
        match chkStdBlock stdipbr.toStdIpbRec world.clock with
        | .expired => world.withTask worker (.removing place)
        | .blocked | .notBlocked => world.withTask worker .idle
    | _ => none
  | .acceptRemove worker =>
    match world.tasks worker with
    | .removing place =>
      world.records[place]?.map fun stdipbr =>
        (world.remove stdipbr.ipAddr).withTask worker .idle
    | _ => none
  | .failureGet worker peerName =>
    match world.tasks worker, world.table peerName with
    | .idle, some place => some (world.withTask worker (.counting place))
    | .idle, none => some (world.withTask worker (.creating peerName))
    | _, _ => none
  | .failureCount worker =>
    match world.tasks worker with
    | .counting place => some ((world.count place).withTask worker .idle)
    | _ => none
  | .failureAdd worker =>
    match world.tasks worker with
    | .creating peerName => some ((world.add peerName false).withTask worker .idle)
    | _ => none
  | .stdIpblock peerName =>
    some (if peerName = inaddrNone then world else world.add peerName true)
  | .stdUnblock peerName =>
    some (if peerName = inaddrNone then world else world.remove peerName)

/-- What each event does where it is taken. -/
inductive Taken (world : IpblockWorld) : IpblockEvent → IpblockWorld → Prop
  | tick (seconds : Nat) : Taken world (.tick seconds) { world with clock := world.clock + seconds }
  | checking {worker place peerName} (idle : world.tasks worker = .idle)
      (there : world.table peerName = some place) :
      Taken world (.acceptGet worker peerName) (world.withTask worker (.checking place))
  | unknown {worker peerName} (idle : world.tasks worker = .idle)
      (missing : world.table peerName = none) : Taken world (.acceptGet worker peerName) world
  | expired {worker place stdipbr} (task : world.tasks worker = .checking place)
      (there : world.records[place]? = some stdipbr)
      (expired : chkStdBlock stdipbr.toStdIpbRec world.clock = .expired) :
      Taken world (.acceptCheck worker) (world.withTask worker (.removing place))
  | current {worker place stdipbr} (task : world.tasks worker = .checking place)
      (there : world.records[place]? = some stdipbr)
      (current : chkStdBlock stdipbr.toStdIpbRec world.clock ≠ .expired) :
      Taken world (.acceptCheck worker) (world.withTask worker .idle)
  | removed {worker place stdipbr} (task : world.tasks worker = .removing place)
      (there : world.records[place]? = some stdipbr) :
      Taken world (.acceptRemove worker) ((world.remove stdipbr.ipAddr).withTask worker .idle)
  | counting {worker place peerName} (idle : world.tasks worker = .idle)
      (there : world.table peerName = some place) :
      Taken world (.failureGet worker peerName) (world.withTask worker (.counting place))
  | creating {worker peerName} (idle : world.tasks worker = .idle)
      (missing : world.table peerName = none) :
      Taken world (.failureGet worker peerName) (world.withTask worker (.creating peerName))
  | counted {worker place} (task : world.tasks worker = .counting place) :
      Taken world (.failureCount worker) ((world.count place).withTask worker .idle)
  | added {worker peerName} (task : world.tasks worker = .creating peerName) :
      Taken world (.failureAdd worker) ((world.add peerName false).withTask worker .idle)
  | notBlocked : Taken world (.stdIpblock inaddrNone) world
  | blocked {peerName} (proper : peerName ≠ inaddrNone) :
      Taken world (.stdIpblock peerName) (world.add peerName true)
  | notUnblocked : Taken world (.stdUnblock inaddrNone) world
  | unblocked {peerName} (proper : peerName ≠ inaddrNone) :
      Taken world (.stdUnblock peerName) (world.remove peerName)

theorem step_taken {world next : IpblockWorld} {event : IpblockEvent}
    (taken : world.step event = some next) : Taken world event next := by
  cases event with
  | tick seconds =>
    obtain rfl := Option.some.inj taken
    exact .tick seconds
  | acceptGet worker peerName =>
    simp only [step] at taken
    split at taken
    · rename_i place idle there
      obtain rfl := Option.some.inj taken
      exact .checking idle there
    · rename_i idle missing
      obtain rfl := Option.some.inj taken
      exact .unknown idle missing
    · cases taken
  | acceptCheck worker =>
    simp only [step] at taken
    split at taken
    · rename_i place task
      obtain ⟨stdipbr, there, rfl⟩ := Option.map_eq_some_iff.mp taken
      split
      · rename_i expired
        exact .expired task there expired
      · rename_i blocked
        exact .current task there (by rw [blocked]; decide)
      · rename_i notBlocked
        exact .current task there (by rw [notBlocked]; decide)
    · cases taken
  | acceptRemove worker =>
    simp only [step] at taken
    split at taken
    · rename_i place task
      obtain ⟨stdipbr, there, rfl⟩ := Option.map_eq_some_iff.mp taken
      exact .removed task there
    · cases taken
  | failureGet worker peerName =>
    simp only [step] at taken
    split at taken
    · rename_i place idle there
      obtain rfl := Option.some.inj taken
      exact .counting idle there
    · rename_i idle missing
      obtain rfl := Option.some.inj taken
      exact .creating idle missing
    · cases taken
  | failureCount worker =>
    simp only [step] at taken
    split at taken
    · rename_i place task
      obtain rfl := Option.some.inj taken
      exact .counted task
    · cases taken
  | failureAdd worker =>
    simp only [step] at taken
    split at taken
    · rename_i peerName task
      obtain rfl := Option.some.inj taken
      exact .added task
    · cases taken
  | stdIpblock peerName =>
    obtain rfl := Option.some.inj taken
    split
    · rename_i refused
      subst refused
      exact .notBlocked
    · rename_i proper
      exact .blocked proper
  | stdUnblock peerName =>
    obtain rfl := Option.some.inj taken
    split
    · rename_i refused
      subst refused
      exact .notUnblocked
    · rename_i proper
      exact .unblocked proper

end IpblockWorld

/-- The server when it starts: there are no records, and no worker looks for one. -/
def ipblockStart (clock : Nat) : IpblockWorld := ⟨clock, [], fun _ => none, fun _ => .idle⟩

/-- A run, with the steps it took and the states it took them in. -/
inductive IpblockRun (clock : Nat) : List (IpblockWorld × IpblockEvent) → IpblockWorld → Prop
  | start : IpblockRun clock [] (ipblockStart clock)
  | step {history world next} {event : IpblockEvent} (run : IpblockRun clock history world)
      (taken : world.step event = some next) : IpblockRun clock (history ++ [(world, event)]) next

/-! ### How long an address stays blocked -/

/-- The record was made by failed authentications and is not expired. -/
def StdIpbRec.Active (stdipbr : StdIpbRec) (clock : Nat) : Prop :=
  stdipbr.isManual = false ∧ (clock : Int) - stdipbr.timestamp < authblockExpiry

/-- Every active record in which enough failed authentications were counted blocks its address. -/
def IpblockWorld.StaysBlocked (world : IpblockWorld) : Prop :=
  ∀ stdipbr ∈ world.records, stdipbr.Active world.clock →
    authblockFailThres.toNat ≤ stdipbr.counted →
    chkStdBlock stdipbr.toStdIpbRec world.clock = .blocked

/-- The step does not count a failed authentication in an active record whose counter is full. -/
def IpblockWorld.CountsSafely (world : IpblockWorld) (event : IpblockEvent) : Prop :=
  ∀ worker place stdipbr, event = .failureCount worker → world.tasks worker = .counting place →
    world.records[place]? = some stdipbr → stdipbr.Active world.clock → stdipbr.failedAuths ≠ 255

/-- The counter of every active record is the number of failed authentications counted in it. -/
def IpblockWorld.CountersExact (world : IpblockWorld) : Prop :=
  ∀ stdipbr ∈ world.records, stdipbr.Active world.clock →
    stdipbr.failedAuths.toNat = stdipbr.counted

theorem chkStdBlock_active {stdipbr : StdIpbRec} {clock : Nat} (active : stdipbr.Active clock) :
    chkStdBlock stdipbr clock = .blocked ↔ authblockFailThres.toNat ≤ stdipbr.failedAuths.toNat := by
  obtain ⟨automatic, recent⟩ := active
  rw [chkStdBlock, automatic, if_neg (by simp), if_neg (by omega)]
  by_cases reached : stdipbr.failedAuths ≥ authblockFailThres
  · rw [if_pos reached]
    exact iff_of_true rfl (UInt8.le_iff_toNat_le.mp reached)
  · rw [if_neg reached]
    exact iff_of_false (by simp) fun enough => reached (UInt8.le_iff_toNat_le.mpr enough)

theorem IpblockWorld.CountersExact.staysBlocked {world : IpblockWorld}
    (exact : world.CountersExact) : world.StaysBlocked := by
  intro stdipbr member active enough
  rw [chkStdBlock_active active, exact stdipbr member active]
  exact enough

/-! ### What a step does to the records -/

/-- A step leaves the records as they are while the clock goes on, makes one, or counts a failed
authentication in one. -/
inductive RecordsMoved (world : IpblockWorld) (event : IpblockEvent) (next : IpblockWorld) : Prop
  | kept (same : next.records = world.records) (later : world.clock ≤ next.clock)
  | made (peerName : Bytes) (isManual : Bool) (clock : next.clock = world.clock)
      (added : next.records = world.records ++ [⟨stdIpbRecCreate peerName isManual world.clock,
        (stdIpbRecCreate peerName isManual world.clock).failedAuths.toNat⟩])
  | counted (worker place : Nat) (taken : event = .failureCount worker)
      (task : world.tasks worker = .counting place) (clock : next.clock = world.clock)
      (bumped : next.records = (world.count place).records)

theorem IpblockWorld.add_moved (world : IpblockWorld) (event : IpblockEvent) (peerName : Bytes)
    (isManual : Bool) : RecordsMoved world event (world.add peerName isManual) := by
  rw [IpblockWorld.add]
  split
  · exact .kept rfl le_rfl
  · exact .made peerName isManual rfl rfl

theorem IpblockWorld.step_moved {world next : IpblockWorld} {event : IpblockEvent}
    (taken : world.step event = some next) : RecordsMoved world event next := by
  cases IpblockWorld.step_taken taken with
  | tick seconds => exact .kept rfl (Nat.le_add_right _ _)
  | counted task => exact .counted _ _ rfl task rfl rfl
  | @added worker peerName task =>
    cases world.add_moved (.failureAdd worker) peerName false with
    | kept same later => exact .kept same later
    | made peerName isManual clock added => exact .made peerName isManual clock added
    | counted _ _ wrong => cases wrong
  | blocked proper => exact world.add_moved _ _ true
  | _ => exact .kept rfl le_rfl

theorem StdIpbRec.Active.earlier {stdipbr : StdIpbRec} {clock later : Nat}
    (active : stdipbr.Active later) (order : clock ≤ later) : stdipbr.Active clock := by
  obtain ⟨automatic, recent⟩ := active
  exact ⟨automatic, by omega⟩

theorem getElem?_count {world : IpblockWorld} {place other : Nat} :
    (world.count place).records[other]? =
      if place = other then world.records[other]?.map fun stdipbr =>
        ⟨stdipbr.countFailure, stdipbr.counted + 1⟩
      else world.records[other]? := by
  rw [IpblockWorld.count, List.getElem?_modify]
  split <;> simp

/-- Counting keeps the counters exact where none of them is full. -/
theorem IpblockWorld.CountersExact.step {world next : IpblockWorld} {event : IpblockEvent}
    (exact : world.CountersExact) (safe : world.CountsSafely event)
    (taken : world.step event = some next) : next.CountersExact := by
  intro stdipbr member active
  cases IpblockWorld.step_moved taken with
  | kept same later =>
    rw [same] at member
    exact exact stdipbr member (active.earlier later)
  | made peerName isManual clock added =>
    rw [added] at member
    rw [clock] at active
    rcases List.mem_append.mp member with old | new
    · exact exact stdipbr old active
    · rw [List.mem_singleton.mp new]
  | counted worker place event task clock bumped =>
    rw [clock] at active
    rw [bumped] at member
    obtain ⟨other, found⟩ := List.mem_iff_getElem?.mp member
    rw [getElem?_count] at found
    split at found
    · rename_i equal
      subst equal
      obtain ⟨before, there, rfl⟩ := Option.map_eq_some_iff.mp found
      have counter := exact before (List.mem_of_getElem? there) active
      have space : before.failedAuths ≠ 255 := safe worker place before event task there active
      have small : before.failedAuths.toNat ≠ 255 := fun full =>
        space (UInt8.toNat_inj.mp (full.trans (by decide)))
      have byte := before.failedAuths.toNat_lt
      simp only [StdIpbRec.countFailure, UInt8.toNat_add]
      rw [counter] at small byte ⊢
      exact Nat.mod_eq_of_lt (by simp; omega)
    · exact exact stdipbr (List.mem_of_getElem? found) active

/-- A count in an active record whose counter is full unblocks its address. -/
theorem IpblockWorld.CountersExact.not_staysBlocked {world next : IpblockWorld}
    {event : IpblockEvent} (exact : world.CountersExact) (overflows : ¬ world.CountsSafely event)
    (taken : world.step event = some next) : ¬ next.StaysBlocked := by
  rw [IpblockWorld.CountsSafely] at overflows
  push Not at overflows
  obtain ⟨worker, place, stdipbr, rfl, task, there, active, full⟩ := overflows
  have counter := exact stdipbr (List.mem_of_getElem? there) active
  rw [full] at counter
  intro blocked
  rw [IpblockWorld.step, task] at taken
  obtain rfl := Option.some.inj taken
  have found : (world.count place).records[place]? =
      some ⟨stdipbr.countFailure, stdipbr.counted + 1⟩ := by
    rw [getElem?_count, if_pos rfl, there]
    rfl
  have enough : authblockFailThres.toNat ≤ stdipbr.counted + 1 := by
    rw [← counter]
    decide
  have verdict := (@chkStdBlock_active stdipbr.countFailure _ active).mp
    (blocked ⟨stdipbr.countFailure, stdipbr.counted + 1⟩ (List.mem_of_getElem? found) active enough)
  simp [StdIpbRec.countFailure, full] at verdict

theorem ipblockStart_countersExact (clock : Nat) : (ipblockStart clock).CountersExact := by
  intro stdipbr member
  cases member

/-- As long as every address stays blocked in the states of a run, its counters are exact. -/
theorem IpblockRun.countersExact {clock : Nat} {history : List (IpblockWorld × IpblockEvent)}
    {world : IpblockWorld} (run : IpblockRun clock history world)
    (safe : ∀ visited ∈ history, visited.1.CountsSafely visited.2) : world.CountersExact := by
  induction run with
  | start => exact ipblockStart_countersExact clock
  | step run taken inductionHypothesis =>
    have before := inductionHypothesis fun visited member =>
      safe visited (List.mem_append_left _ member)
    exact before.step (safe _ (List.mem_append_right _ (List.mem_singleton_self _))) taken

/-- In a run, every address stays blocked in every state exactly if no step counts a failed
authentication in an active record whose counter is full. -/
theorem stays_blocked_iff {clock : Nat} {history : List (IpblockWorld × IpblockEvent)}
    {world : IpblockWorld} (run : IpblockRun clock history world) :
    ((∀ visited ∈ history, visited.1.StaysBlocked) ∧ world.StaysBlocked) ↔
      ∀ visited ∈ history, visited.1.CountsSafely visited.2 := by
  induction run with
  | start =>
    have none : ∀ visited ∈ ([] : List (IpblockWorld × IpblockEvent)), visited.1.StaysBlocked := by
      simp
    exact iff_of_true ⟨none, (ipblockStart_countersExact clock).staysBlocked⟩ (by simp)
  | @step history world next event run taken inductionHypothesis =>
    have last : (world, event) ∈ history ++ [(world, event)] :=
      List.mem_append_right _ (List.mem_singleton_self _)
    constructor
    · rintro ⟨visited, blocked⟩
      have before := inductionHypothesis.mp
        ⟨fun old member => visited old (List.mem_append_left _ member), visited _ last⟩
      intro old member
      rcases List.mem_append.mp member with earlier | now
      · exact before old earlier
      · rw [List.mem_singleton.mp now]
        by_contra overflows
        exact (run.countersExact before).not_staysBlocked overflows taken blocked
    · intro safe
      have before := fun old member => safe old (List.mem_append_left [(world, event)] member)
      obtain ⟨visited, blocked⟩ := inductionHypothesis.mpr before
      refine ⟨fun old member => ?_, ?_⟩
      · rcases List.mem_append.mp member with earlier | now
        · exact visited old earlier
        · rw [List.mem_singleton.mp now]
          exact blocked
      · exact ((run.countersExact before).step (safe _ last) taken).staysBlocked

/-- One address after some failed authentications, all of them from connections that were accepted
before. -/
def afterFailures (count : Nat) : IpblockWorld where
  clock := 0
  records := [⟨⟨[127, 0, 0, 1], authblockExpiry, UInt8.ofNat count, false⟩, count⟩]
  table := fun peerName => if peerName = [127, 0, 0, 1] then some 0 else none
  tasks := fun _ => .idle

/-- A worker that is done with its task is as idle as it was before. -/
theorem idle_again (worker : Nat) (task : IpblockTask) :
    (fun other => if other = worker then IpblockTask.idle
      else if other = worker then task else IpblockTask.idle) = fun _ => .idle := by
  funext other
  by_cases same : other = worker <;> simp [same]

theorem afterFailures_run (count : Nat) :
    ∃ history, IpblockRun 0 history (afterFailures (count + 1)) := by
  induction count with
  | zero =>
    have missed := @IpblockRun.step 0 [] _ _ (.failureGet 0 [127, 0, 0, 1]) .start rfl
    have made := @IpblockRun.step 0 _ _ _ (.failureAdd 0) missed rfl
    refine ⟨_, cast (congrArg _ ?_) made⟩
    simp only [IpblockWorld.withTask, IpblockWorld.add, afterFailures, ipblockStart, idle_again]
    rfl
  | succ count inductionHypothesis =>
    obtain ⟨history, run⟩ := inductionHypothesis
    have found := @IpblockRun.step 0 _ _ _ (.failureGet 0 [127, 0, 0, 1]) run rfl
    have counted := @IpblockRun.step 0 _ _ _ (.failureCount 0) found rfl
    refine ⟨_, cast (congrArg _ ?_) counted⟩
    have next : UInt8.ofNat (count + 1) + 1 = UInt8.ofNat (count + 1 + 1) := by
      apply UInt8.toNat_inj.mp
      simp
    simp only [IpblockWorld.withTask, IpblockWorld.count, afterFailures, idle_again,
      List.modify_zero_cons, StdIpbRec.countFailure, next]

/-- After 256 failed authentications the address is not blocked any more. -/
theorem blocked_address_unblocked :
    ∃ history world, IpblockRun 0 history world ∧ ¬ world.StaysBlocked := by
  obtain ⟨history, run⟩ := afterFailures_run 255
  refine ⟨history, _, run, fun blocked => ?_⟩
  have verdict := blocked ⟨⟨[127, 0, 0, 1], authblockExpiry, 0, false⟩, 256⟩
    (by simp [afterFailures]) ⟨rfl, by decide⟩ (by decide)
  simp [chkStdBlock, afterFailures] at verdict

/-- A run in which five authentications fail. -/
theorem stays_blocked_iff_five_failures :
    ∃ history world, IpblockRun 0 history world ∧ world.records.map (·.counted) = [5] ∧
      ((∀ visited ∈ history, visited.1.StaysBlocked) ∧ world.StaysBlocked ↔
        ∀ visited ∈ history, visited.1.CountsSafely visited.2) := by
  obtain ⟨history, run⟩ := afterFailures_run 4
  exact ⟨history, _, run, rfl, stays_blocked_iff run⟩

end Lwmsg
