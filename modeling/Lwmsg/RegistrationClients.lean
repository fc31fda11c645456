/-
This file models the clients of the registration thread in `server/registration.c`: how they get
into its list and into the heap of its deadlines, and how they leave both.

A client whose handshake ends when it is accepted is added to both. One whose handshake ends later
is in the list already, and `handle_client_event` sets its state but gives it no deadline, where the
workers do. A run in which that happens has a client without a deadline, and in every other run each
client that finished its handshake has one. In all runs the heap holds clients of the list only, so
every way to clean a client up finds it in both.
-/

import Lwmsg.LoginTimeouts
import Lwmsg.Registration
import Lwmsg.Traced
import Mathlib.Data.List.Perm.Subperm

namespace Lwmsg

open Bytes Pointers SinglyLinked

/-! ### The thread -/

/-- `CLTH_REG_MAXPERM_TIME`. -/
def clthRegMaxpermTime : Int := 4

/-- `list_add`. -/
def listAdd := intrusiveListAdd

/-- `list_remove`. -/
def listRemove := intrusiveListRemove

/-- What the registration thread works on. The nodes are those that were not freed, `next` is the
link of each of them, and `allocated` is the next new address. -/
structure RegThread where
  list : Option Addr
  next : Links
  clients : Addr → Option RegClient
  allocated : Addr
  timers : TimeoutState
  tables : RegTables

/-- An event of a client: whether it hung up, what `avail_data_fn` reports where there is something
to read, and what `accept_fn` answers if it is asked. The connection is the one it has by then. -/
structure Revent where
  hungUp : Bool
  availData : Option Nat
  connection : Conn
  acceptres : AcceptOutcome
  env : RegEnv

namespace RegThread

/-- `cleanup_reg_client`. A list is shorter than the number of addresses given so far. -/
def cleanupRegClient (thread : RegThread) (pcln : Addr) : Option RegThread := do
  let timers ← thread.timers.cleanup pcln
  let (list, next) ← listRemove (thread.allocated + 1) thread.list thread.next pcln
  return { thread with
    list, next, timers
    clients := Function.update thread.clients pcln none }

/-- `atomic_store` to the state of a client. -/
def setClState (thread : RegThread) (pcln : Addr) (clState : ClientState) : RegThread :=
  { thread with timers := { thread.timers with
    clState := Function.update thread.timers.clState pcln clState } }

/-- The start of `track_new_client`: a new node in the list, for a client whose handshake is not
done. -/
def listed (thread : RegThread) (cl : RegClient) : RegThread :=
  let cln := thread.allocated
  let thread := { thread with
    list := (listAdd thread.list thread.next cln).1
    next := (listAdd thread.list thread.next cln).2
    clients := Function.update thread.clients cln (some cl)
    allocated := thread.allocated + 1
    timers := { thread.timers with clth := thread.timers.clth.register cln } }
  thread.setClState cln .accepting

/-- `track_new_client`, for a client whose handshake did not fail. What `cl_timerheap_add` answers is
not looked at. -/
def trackNewClient (thread : RegThread) (cl : RegClient) (acceptres : AcceptOutcome)
    (now : Timespec) : Option RegThread := do
  let cln := thread.allocated
  let thread := thread.listed cl
  if acceptres = .done then
    let thread := thread.setClState cln .accepted
    let (_, clth) ← clTimerheapAdd thread.timers.clth cln now clthRegMaxpermTime
    return { thread with timers := { thread.timers with clth } }
  else
    return thread

/-- What a handler leaves of its client. -/
def finish (thread : RegThread) (pcln : Addr) (result : RegResult) : Option RegThread :=
  let thread := { thread with tables := result.tables }
  match result.cl with
  | some cl => some { thread with clients := Function.update thread.clients pcln (some cl) }
  | none => thread.cleanupRegClient pcln

/-- `handle_client_event`. -/
def handleClientEvent (thread : RegThread) (pcln : Addr) (revent : Revent) : Option RegThread := do
  let cl ← thread.clients pcln
  let cl := { cl with connection := revent.connection }
  if revent.hungUp then
    thread.finish pcln
      (match revent.availData with
      | some availData => regHandleDisconnect revent.env thread.tables availData cl
      | none => ⟨thread.tables, none, none⟩)
  else if thread.timers.clState pcln = .accepting then
    match revent.acceptres with
    | .error => thread.cleanupRegClient pcln
    | .done => return thread.setClState pcln .accepted
    | .pending => return thread
  else
    thread.finish pcln (Lwmsg.handleClientEvent revent.env thread.tables cl)

end RegThread

/-- The registration thread. -/
def regCaller : TimeoutCaller RegThread where
  clth thread := thread.timers.clth
  clState thread := thread.timers.clState
  setClth thread clth := { thread with timers := { thread.timers with clth } }
  cleanup := RegThread.cleanupRegClient

/-- What happens in the registration thread: a peer that is let in connects, there is an event of a
client, and `handle_clth_timeout` is called. -/
inductive RegEvent
  | connect (cl : RegClient) (acceptres : AcceptOutcome) (now : Timespec)
  | client (pcln : Addr) (revent : Revent)
  | timeouts (now : Timespec)

/-- One event. -/
def RegThread.perform (thread : RegThread) : RegEvent → Option RegThread
  | .connect cl acceptres now =>
    if acceptres = .error then some thread else thread.trackNewClient cl acceptres now
  | .client pcln revent => thread.handleClientEvent pcln revent
  | .timeouts now =>
    (clthTimeoutLoop regCaller now (thread.timers.clth.heap.numClients + 1) thread).map Prod.snd

/-- The thread when it starts. -/
def regThreadStart (tables : RegTables) : RegThread where
  list := none
  next _ := none
  clients _ := none
  allocated := 0
  timers := ⟨⟨outsideClients, emptyTimerheap defClthSize⟩, fun _ => .init, []⟩
  tables := tables

/-! ### The list and the heap -/

/-- The list and the heap agree, with the addresses in the list: the heap holds clients of the list
that finished their handshakes. -/
structure RegInvariant (thread : RegThread) (addrs : List Addr) : Prop where
  path : Path thread.next thread.list addrs none
  distinct : addrs.Nodup
  below : ∀ addr ∈ addrs, addr < thread.allocated
  live : ∀ addr, addr ∈ addrs ↔ (thread.clients addr).isSome
  slots : TimerSlots thread.timers.clth
  awaited : ∀ addr, thread.timers.clth.Holds addr →
    addr ∈ addrs ∧ thread.timers.clState addr = .accepted

/-- Every client of the list that finished its handshake is in the heap. -/
def Timed (thread : RegThread) (addrs : List Addr) : Prop :=
  ∀ addr ∈ addrs, thread.timers.clState addr = .accepted → thread.timers.clth.Holds addr

section Clients

variable {thread next : RegThread} {addrs : List Addr} {pcln : Addr}

theorem RegInvariant.length_le (invariant : RegInvariant thread addrs) :
    addrs.length ≤ thread.allocated := by
  have inside : addrs ⊆ List.range thread.allocated := fun addr member =>
    List.mem_range.mpr (invariant.below addr member)
  simpa using (List.subperm_of_subset invariant.distinct inside).length_le

/-- Cleaning a client up takes it out of the list and out of the heap. -/
theorem RegInvariant.cleanup (invariant : RegInvariant thread addrs) (pcln : Addr) :
    ∃ next, thread.cleanupRegClient pcln = some next ∧ RegInvariant next (addrs.erase pcln) ∧
      next.timers.clState = thread.timers.clState ∧
      OthersHeld thread.timers.clth next.timers.clth pcln ∧
      (¬ thread.timers.clth.Holds pcln → next.timers.clth = thread.timers.clth) := by
  obtain ⟨clth, remove, taken, unchanged⟩ := clTimerheapRemove_takenOut invariant.slots pcln
  obtain ⟨list, links, unlink, path, _⟩ := @intrusiveListRemove_path _ _ _ pcln _
    invariant.path invariant.distinct (Nat.lt_succ_of_le invariant.length_le)
  refine ⟨{ thread with
      list, next := links
      timers := { thread.timers with
        clth, disconnected := thread.timers.disconnected ++ [pcln] }
      clients := Function.update thread.clients pcln none }, ?_,
    ⟨path, invariant.distinct.erase pcln, fun addr member => ?_, fun addr => ?_, taken.slots,
      fun addr holds => ?_⟩, rfl, taken.others, unchanged⟩
  · rw [RegThread.cleanupRegClient, TimeoutState.cleanup, remove]
    simp only [Option.bind_eq_bind, Option.bind_some, Option.pure_def, listRemove, unlink]
  · exact invariant.below addr (List.mem_of_mem_erase member)
  · rw [invariant.distinct.mem_erase_iff]
    by_cases same : addr = pcln
    · subst same
      simp
    · simp [same, invariant.live addr]
  · have different : addr ≠ pcln := by
      rintro rfl
      exact taken.absent holds
    obtain ⟨member, accepted⟩ := invariant.awaited addr ((taken.others addr different).mp holds)
    exact ⟨(List.mem_erase_of_ne different).mpr member, accepted⟩

/-- A client that is cleaned up leaves no other without a deadline. -/
theorem RegInvariant.cleanup_timed (invariant : RegInvariant thread addrs) (pcln : Addr) :
    ∃ next, thread.cleanupRegClient pcln = some next ∧ RegInvariant next (addrs.erase pcln) ∧
      (Timed thread addrs → Timed next (addrs.erase pcln)) := by
  obtain ⟨next, call, kept, states, others, _⟩ := invariant.cleanup pcln
  refine ⟨next, call, kept, fun timed addr member accepted => ?_⟩
  obtain ⟨different, listed⟩ := invariant.distinct.mem_erase_iff.mp member
  rw [states] at accepted
  exact (others addr different).mpr (timed addr listed accepted)

/-- What does not concern the list and the heap. -/
theorem RegInvariant.congr (invariant : RegInvariant thread addrs) (list : next.list = thread.list)
    (links : next.next = thread.next) (allocated : next.allocated = thread.allocated)
    (live : ∀ addr, (next.clients addr).isSome = (thread.clients addr).isSome)
    (timers : next.timers = thread.timers) :
    RegInvariant next addrs ∧ (Timed thread addrs → Timed next addrs) := by
  refine ⟨⟨?_, invariant.distinct, ?_, fun addr => ?_, ?_, ?_⟩, fun timed => ?_⟩
  · rw [list, links]
    exact invariant.path
  · rw [allocated]
    exact invariant.below
  · rw [live, invariant.live]
  · rw [timers]
    exact invariant.slots
  · rw [timers]
    exact invariant.awaited
  · unfold Timed
    rw [timers]
    exact timed

/-- What a handler leaves of a client. -/
theorem RegInvariant.finish (invariant : RegInvariant thread addrs) (member : pcln ∈ addrs)
    (result : RegResult) :
    ∃ next others, thread.finish pcln result = some next ∧ RegInvariant next others ∧
      (Timed thread addrs → Timed next others) := by
  have tabled := @RegInvariant.congr thread { thread with tables := result.tables } addrs invariant
    rfl rfl rfl (fun _ => rfl) rfl
  unfold RegThread.finish
  cases result.cl with
  | none =>
    obtain ⟨next, call, kept, timed⟩ := tabled.1.cleanup_timed pcln
    exact ⟨next, _, call, kept, fun before => timed (tabled.2 before)⟩
  | some cl =>
    refine ⟨_, addrs, rfl, invariant.congr rfl rfl rfl (fun addr => ?_) rfl⟩
    by_cases same : addr = pcln
    · subst same
      simp [(invariant.live addr).mp member]
    · simp [same]

/-- A client that finishes its handshake later has no deadline. -/
theorem RegInvariant.setAccepted (invariant : RegInvariant thread addrs) (member : pcln ∈ addrs)
    (accepting : thread.timers.clState pcln = .accepting) :
    RegInvariant (thread.setClState pcln .accepted) addrs ∧
      ¬ Timed (thread.setClState pcln .accepted) addrs := by
  refine ⟨⟨invariant.path, invariant.distinct, invariant.below, invariant.live, invariant.slots,
    fun addr holds => ?_⟩, fun timed => ?_⟩
  · obtain ⟨listed, accepted⟩ := invariant.awaited addr holds
    refine ⟨listed, ?_⟩
    by_cases same : addr = pcln
    · exact same ▸ Function.update_self ..
    · exact (Function.update_of_ne same ..).trans accepted
  · have held := timed pcln member (Function.update_self ..)
    have accepted := (invariant.awaited pcln held).2
    rw [accepting] at accepted
    cases accepted

theorem RegInvariant.fresh (invariant : RegInvariant thread addrs) :
    thread.allocated ∉ addrs ∧ ¬ thread.timers.clth.Holds thread.allocated := by
  have outside : thread.allocated ∉ addrs := fun member =>
    absurd (invariant.below _ member) (lt_irrefl _)
  exact ⟨outside, fun holds => outside (invariant.awaited _ holds).1⟩

theorem RegInvariant.listed (invariant : RegInvariant thread addrs) (cl : RegClient) :
    RegInvariant (thread.listed cl) (thread.allocated :: addrs) ∧
      ¬ (thread.listed cl).timers.clth.Holds thread.allocated ∧
      (Timed thread addrs → Timed (thread.listed cl) (thread.allocated :: addrs)) := by
  obtain ⟨outside, absent⟩ := invariant.fresh
  have apart {addr : Addr} (member : addr ∈ addrs) : addr ≠ thread.allocated := by
    rintro rfl
    exact outside member
  have sameState {addr : Addr} (different : addr ≠ thread.allocated) :
      (thread.listed cl).timers.clState addr = thread.timers.clState addr :=
    Function.update_of_ne different ..
  obtain ⟨path, _⟩ := intrusiveListAdd_path invariant.path outside
  obtain ⟨slots, holds⟩ := invariant.slots.register absent
  refine ⟨⟨path, List.nodup_cons.mpr ⟨outside, invariant.distinct⟩, ?_, fun addr => ?_, slots,
    fun addr held => ?_⟩, fun held => absent ((holds _).mp held), fun timed => ?_⟩
  · rintro addr (_ | ⟨_, member⟩)
    · exact Nat.lt_succ_self _
    · exact (invariant.below addr member).trans (Nat.lt_succ_self _)
  · show _ ↔ (Function.update thread.clients thread.allocated (some cl) addr).isSome
    by_cases new : addr = thread.allocated
    · subst new
      simp
    · simp [new, invariant.live addr]
  · obtain ⟨member, accepted⟩ := invariant.awaited addr ((holds addr).mp held)
    exact ⟨List.mem_cons_of_mem _ member, (sameState (apart member)).trans accepted⟩
  · rintro addr (_ | ⟨_, member⟩) accepted
    · have accepting : (thread.listed cl).timers.clState thread.allocated = .accepting :=
        Function.update_self ..
      rw [accepting] at accepted
      cases accepted
    · rw [sameState (apart member)] at accepted
      exact (holds addr).mpr (timed addr member accepted)

/-- A tracked client is in the list, and in the heap if its handshake is done. -/
theorem RegInvariant.track (invariant : RegInvariant thread addrs)
    (few : thread.timers.clth.heap.numClients < 2 ^ 31) (cl : RegClient) (acceptres : AcceptOutcome)
    (now : Timespec) :
    ∃ next others, thread.trackNewClient cl acceptres now = some next ∧ RegInvariant next others ∧
      (Timed thread addrs → Timed next others) := by
  obtain ⟨kept, absent, timed⟩ := invariant.listed cl
  by_cases done : acceptres = .done
  · obtain ⟨clth, add, slots, held, others⟩ :=
      clTimerheapAdd_slots now clthRegMaxpermTime kept.slots few absent
    have call : thread.trackNewClient cl acceptres now =
        some { (thread.listed cl).setClState thread.allocated .accepted with
          timers := { ((thread.listed cl).setClState thread.allocated .accepted).timers with
            clth } } := by
      have sameHeap : ((thread.listed cl).setClState thread.allocated .accepted).timers.clth =
          (thread.listed cl).timers.clth := rfl
      unfold RegThread.trackNewClient
      rw [if_pos done]
      simp only [sameHeap, add, Option.bind_eq_bind, Option.bind_some]
      rfl
    refine ⟨_, _, call, ⟨kept.path, kept.distinct, kept.below, kept.live, slots,
      fun addr holds => ?_⟩, fun before addr member accepted => ?_⟩
    · by_cases new : addr = thread.allocated
      · subst new
        exact ⟨List.mem_cons_self, Function.update_self ..⟩
      · obtain ⟨member, accepted⟩ := kept.awaited addr ((others addr new).mp holds)
        exact ⟨member, (Function.update_of_ne new ..).trans accepted⟩
    · by_cases new : addr = thread.allocated
      · exact new ▸ held
      · refine (others addr new).mpr (timed before addr member ?_)
        exact (Function.update_of_ne new ..).symm.trans accepted
  · refine ⟨thread.listed cl, _, ?_, kept, timed⟩
    unfold RegThread.trackNewClient
    rw [if_neg done]
    rfl

/-! ### Timeouts -/

/-- A turn of the loop cleans up at most the first client of the heap. -/
theorem RegInvariant.turn (invariant : RegInvariant thread addrs) (now : Timespec) :
    ∃ answer next others, clthTimeoutTurn regCaller now thread = some (answer, next) ∧
      RegInvariant next others ∧ (Timed thread addrs → Timed next others) ∧
      (answer = none →
        next.timers.clth.heap.numClients < thread.timers.clth.heap.numClients) := by
  have root := @rootTimediff_root now thread.timers.clth thread.timers.clState
  generalize isTimediff : clTimerheapComputeRootTimediff thread.timers.clth thread.timers.clState
    .accepted now = timediff at root
  rw [@clthTimeoutTurn_eq _ regCaller now thread timediff isTimediff]
  have notApplicable : timediff ≠ clthNotApplicable := by
    rintro rfl
    obtain ⟨cl, isRoot, _⟩ := root (by decide)
    have accepted :=
      (invariant.awaited cl (clTimerheapPop_takenOut invariant.slots isRoot).1).2
    simp only [clTimerheapComputeRootTimediff, isRoot] at isTimediff
    rw [if_neg (not_not_intro accepted)] at isTimediff
    split_ifs at isTimediff
    · cases isTimediff
    · rw [clthNotApplicable] at isTimediff
      omega
  rw [if_neg notApplicable]
  by_cases isTimeout : timediff = clthTimeout
  · obtain ⟨cl, isRoot, accepted⟩ := root (by rw [isTimeout]; decide)
    obtain ⟨_, clth, pop, taken⟩ := clTimerheapPop_takenOut invariant.slots isRoot
    have popped : RegInvariant (regCaller.setClth thread clth) addrs := by
      refine ⟨invariant.path, invariant.distinct, invariant.below, invariant.live, taken.slots,
        fun addr holds => invariant.awaited addr ((taken.others addr ?_).mp holds)⟩
      rintro rfl
      exact taken.absent holds
    obtain ⟨next, cleanup, kept, states, _, unchanged⟩ := popped.cleanup cl
    have sameHeap := unchanged taken.absent
    refine ⟨none, next, addrs.erase cl, ?_, kept, fun timed addr member isAccepted => ?_, fun _ => ?_⟩
    · rw [if_pos isTimeout]
      show (clTimerheapPop thread.timers.clth).bind _ = _
      rw [pop]
      show ((regCaller.setClth thread clth).cleanupRegClient cl).map _ = _
      rw [cleanup]
      rfl
    · obtain ⟨different, listed⟩ := invariant.distinct.mem_erase_iff.mp member
      rw [states] at isAccepted
      rw [sameHeap]
      exact (taken.others addr different).mpr (timed addr listed isAccepted)
    · rw [sameHeap]
      exact Nat.lt_of_succ_le (clTimerheapPop_same pop).1.le
  · rw [if_neg isTimeout]
    refine ⟨_, thread, addrs, rfl, invariant, id, fun noAnswer => ?_⟩
    cases noAnswer

/-- `handle_clth_timeout` ends, whatever the order of the heap. -/
theorem RegInvariant.timeouts {fuel : Nat} (invariant : RegInvariant thread addrs) (now : Timespec)
    (enough : thread.timers.clth.heap.numClients < fuel) :
    ∃ answer next others, clthTimeoutLoop regCaller now fuel thread = some (answer, next) ∧
      RegInvariant next others ∧ (Timed thread addrs → Timed next others) := by
  induction fuel generalizing thread addrs with
  | zero => exact absurd enough (Nat.not_lt_zero _)
  | succ fuel inductionHypothesis =>
    obtain ⟨answer, middle, between, turn, kept, timed, fewer⟩ := invariant.turn now
    rw [clthTimeoutLoop, turn]
    cases answer with
    | some answer => exact ⟨answer, middle, between, rfl, kept, timed⟩
    | none =>
      obtain ⟨answer, next, others, call, keptThen, timedThen⟩ :=
        inductionHypothesis kept ((fewer rfl).trans_le (Nat.le_of_lt_succ enough))
      exact ⟨answer, next, others, call, keptThen, fun before => timedThen (timed before)⟩

/-- A call in the registration thread is a call on its heap. -/
theorem regCaller_lawful : regCaller.Lawful where
  setClth_clth _ _ := rfl
  setClth_clState _ _ := rfl
  cleanup_clth _ call := by
    obtain ⟨timers, cleanup, call⟩ := Option.bind_eq_some_iff.mp call
    obtain ⟨clth, remove, cleanup⟩ := Option.bind_eq_some_iff.mp cleanup
    obtain rfl := Option.some.inj cleanup
    obtain ⟨_, _, call⟩ := Option.bind_eq_some_iff.mp call
    obtain rfl := Option.some.inj call
    exact remove
  cleanup_clState _ call other _ := by
    obtain ⟨timers, cleanup, call⟩ := Option.bind_eq_some_iff.mp call
    obtain ⟨clth, _, cleanup⟩ := Option.bind_eq_some_iff.mp cleanup
    obtain rfl := Option.some.inj cleanup
    obtain ⟨_, _, call⟩ := Option.bind_eq_some_iff.mp call
    obtain rfl := Option.some.inj call
    rfl

theorem RegInvariant.handleClthTimeout (invariant : RegInvariant thread addrs) {now : Timespec}
    {fuel : Nat} {answer : Int}
    (call : clthTimeoutLoop regCaller now fuel thread = some (answer, next)) :
    ∃ after, Lwmsg.handleClthTimeout now fuel thread.timers = some (answer, after) ∧
      Mirrors regCaller next after :=
  clthTimeoutLoop_mirrors regCaller_lawful ⟨rfl, fun _ _ => rfl, invariant.slots⟩ call

end Clients

/-! ### Runs -/

/-- An event that finishes a handshake that was not done at once. -/
def FinishesHandshake (thread : RegThread) : RegEvent → Prop
  | .client pcln revent =>
    revent.hungUp = false ∧ thread.timers.clState pcln = .accepting ∧ revent.acceptres = .done
  | .connect _ _ _ | .timeouts _ => False

instance (thread : RegThread) (event : RegEvent) : Decidable (FinishesHandshake thread event) :=
  match event with
  | .client pcln revent => inferInstanceAs (Decidable (revent.hungUp = false ∧
      thread.timers.clState pcln = .accepting ∧ revent.acceptres = .done))
  | .connect _ _ _ | .timeouts _ => isFalse id

/-- The client that an event is about was not freed. -/
def RegEvent.Concerns (thread : RegThread) : RegEvent → Prop
  | .client pcln _ => (thread.clients pcln).isSome
  | .connect _ _ _ | .timeouts _ => True

/-- No event fails. The list and the heap agree after it, and no client loses its deadline, but one
that finishes its handshake later does not get one. -/
theorem RegInvariant.step {thread : RegThread} {addrs : List Addr}
    (invariant : RegInvariant thread addrs)
    (few : thread.timers.clth.heap.numClients < 2 ^ 31) {event : RegEvent}
    (concerns : event.Concerns thread) :
    ∃ next others, thread.perform event = some next ∧ RegInvariant next others ∧
      (¬ FinishesHandshake thread event → Timed thread addrs → Timed next others) ∧
      (FinishesHandshake thread event → ¬ Timed next others) := by
  cases event with
  | connect cl acceptres now =>
    rw [RegThread.perform]
    split_ifs
    · exact ⟨thread, addrs, rfl, invariant, fun _ => id, fun finishes => finishes.elim⟩
    · obtain ⟨next, others, call, kept, timed⟩ := invariant.track few cl acceptres now
      exact ⟨next, others, call, kept, fun _ => timed, fun finishes => finishes.elim⟩
  | timeouts now =>
    obtain ⟨answer, next, others, call, kept, timed⟩ :=
      invariant.timeouts now (Nat.lt_succ_self _)
    exact ⟨next, others, by rw [RegThread.perform, call]; rfl, kept, fun _ => timed,
      fun finishes => finishes.elim⟩
  | client pcln revent =>
    have member := (invariant.live pcln).mpr concerns
    obtain ⟨cl, live⟩ := Option.isSome_iff_exists.mp concerns
    rw [RegThread.perform, RegThread.handleClientEvent, live]
    simp only [Option.bind_eq_bind, Option.bind_some]
    have handled (ended : revent.hungUp = true ∨ thread.timers.clState pcln ≠ .accepting)
        (result : RegResult) : ∃ next others, thread.finish pcln result = some next ∧
          RegInvariant next others ∧
          (¬ FinishesHandshake thread (.client pcln revent) → Timed thread addrs →
            Timed next others) ∧
          (FinishesHandshake thread (.client pcln revent) → ¬ Timed next others) := by
      obtain ⟨next, others, call, kept, timed⟩ := invariant.finish member result
      refine ⟨next, others, call, kept, fun _ => timed, ?_⟩
      rintro ⟨open', accepting, _⟩
      rcases ended with hungUp | other
      · rw [open'] at hungUp
        cases hungUp
      · exact absurd accepting other
    split_ifs with hungUp accepting
    · exact handled (.inl hungUp) _
    · cases outcome : revent.acceptres with
      | error =>
        obtain ⟨next, call, kept, timed⟩ := invariant.cleanup_timed pcln
        refine ⟨next, _, call, kept, fun _ => timed, ?_⟩
        rintro ⟨_, _, done⟩
        rw [outcome] at done
        cases done
      | done =>
        obtain ⟨kept, untimed⟩ := invariant.setAccepted member accepting
        exact ⟨_, addrs, rfl, kept, fun unfinished => absurd
          ⟨Bool.eq_false_of_not_eq_true hungUp, accepting, outcome⟩ unfinished, fun _ => untimed⟩
      | pending =>
        refine ⟨thread, addrs, rfl, invariant, fun _ => id, ?_⟩
        rintro ⟨_, _, done⟩
        rw [outcome] at done
        cases done
    · exact handled (.inr accepting) _

/-- An event that was taken found its client. -/
theorem RegThread.perform_concerns {thread next : RegThread} {event : RegEvent}
    (taken : thread.perform event = some next) : event.Concerns thread := by
  cases event with
  | connect | timeouts => trivial
  | client pcln revent =>
    obtain ⟨cl, live, _⟩ := Option.bind_eq_some_iff.mp taken
    exact Option.isSome_iff_exists.mpr ⟨cl, live⟩

/-- The list of the thread is shorter than the heap can be large. -/
def FewClients (thread : RegThread) : Prop :=
  ∀ addrs, Path thread.next thread.list addrs none → addrs.length < 2 ^ 31

/-- Every client of the list that finished its handshake is in the heap at its index, and every entry
of the heap is a client of the list. -/
def DeadlinesTracked (thread : RegThread) : Prop :=
  ∀ addrs, Path thread.next thread.list addrs none →
    (∀ addr ∈ addrs, thread.timers.clState addr = .accepted →
      ∃ slot < thread.timers.clth.heap.numClients,
        thread.timers.clth.heap.clients slot = some addr ∧
        (thread.timers.clth.client addr).timerheapIndex = slot) ∧
    ∀ slot < thread.timers.clth.heap.numClients, ∃ addr ∈ addrs,
      thread.timers.clth.heap.clients slot = some addr

section Runs

variable {thread : RegThread} {addrs : List Addr} {tables : RegTables}
  {history : List (RegThread × RegEvent)}

theorem RegInvariant.few (invariant : RegInvariant thread addrs) (few : FewClients thread) :
    thread.timers.clth.heap.numClients < 2 ^ 31 := by
  obtain ⟨members, distinct, length, held⟩ := invariant.slots.members
  have inside : members ⊆ addrs := fun addr member => (invariant.awaited addr (held addr member)).1
  rw [← length]
  exact (List.subperm_of_subset distinct inside).length_le.trans_lt (few addrs invariant.path)

/-- The entries of the heap are clients of the list, so only its clients matter. -/
theorem RegInvariant.tracked_iff (invariant : RegInvariant thread addrs) :
    DeadlinesTracked thread ↔ Timed thread addrs := by
  constructor
  · intro tracked addr member accepted
    exact (invariant.slots.indexed.holds_iff addr).mpr
      ((tracked addrs invariant.path).1 addr member accepted)
  · intro timed others path
    obtain rfl := path.unique invariant.path
    refine ⟨fun addr member accepted => ?_, fun slot inside => ?_⟩
    · exact (invariant.slots.indexed.holds_iff addr).mp (timed addr member accepted)
    · obtain ⟨addr, found, index⟩ := invariant.slots.indexed.occupied slot inside
      have held := (invariant.slots.indexed.holds_iff addr).mpr ⟨slot, inside, found, index⟩
      exact ⟨addr, (invariant.awaited addr held).1, found⟩

theorem regThreadStart_invariant (tables : RegTables) : RegInvariant (regThreadStart tables) [] where
  path := rfl
  distinct := List.nodup_nil
  below _ member := absurd member List.not_mem_nil
  live addr := by simp [regThreadStart]
  slots := (freshTimerheap_invariant ⟨0, 0⟩ outsideClients fun _ => rfl).slots
  awaited addr holds := absurd rfl holds

/-- The list and the heap agree in every run. -/
theorem RegInvariant.run (run : Traced RegThread.perform (regThreadStart tables) history thread)
    (few : ∀ visited ∈ history, FewClients visited.1) : ∃ addrs, RegInvariant thread addrs := by
  refine @Traced.invariant _ _ _ _ _ _ (fun thread => ∃ addrs, RegInvariant thread addrs) run
    ⟨[], regThreadStart_invariant tables⟩ ?_
  rintro visited member ⟨addrs, invariant⟩ next taken
  obtain ⟨_, others, call, kept, _⟩ := invariant.step (invariant.few (few visited member))
    (RegThread.perform_concerns taken)
  obtain rfl := Option.some.inj (call.symm.trans taken)
  exact ⟨others, kept⟩

/-- A thread that has let in few clients so far has few. -/
theorem fewClients_of_allocated
    (run : Traced RegThread.perform (regThreadStart tables) history thread)
    (few : ∀ visited ∈ history, visited.1.allocated < 2 ^ 31) :
    ∀ visited ∈ history, FewClients visited.1 := by
  induction run with
  | start => exact fun _ member => absurd member List.not_mem_nil
  | @step history thread next event run taken inductionHypothesis =>
    have earlier := inductionHypothesis fun visited member =>
      few visited (List.mem_append_left _ member)
    obtain ⟨addrs, invariant⟩ := RegInvariant.run run earlier
    intro visited member
    rcases List.mem_append.mp member with old | new
    · exact earlier visited old
    · have now := few _ (List.mem_append_right _ (List.mem_singleton_self _))
      rw [List.mem_singleton.mp new]
      intro others path
      obtain rfl := path.unique invariant.path
      exact invariant.length_le.trans_lt now

/-- **Every registration client that finished its handshake has a deadline, in every state of a run,
just where no event of it finishes a handshake that was not done at once.** -/
theorem registration_deadlines_iff
    (run : Traced RegThread.perform (regThreadStart tables) history thread)
    (few : ∀ visited ∈ history, FewClients visited.1) :
    ((∀ visited ∈ history, DeadlinesTracked visited.1) ∧ DeadlinesTracked thread) ↔
      ∀ visited ∈ history, ¬ FinishesHandshake visited.1 visited.2 := by
  induction run with
  | start =>
    have tracked := (regThreadStart_invariant tables).tracked_iff.mpr
      fun addr member => absurd member List.not_mem_nil
    simp [tracked]
  | @step history thread next event run taken inductionHypothesis =>
    have fewBefore : ∀ visited ∈ history, FewClients visited.1 := fun visited member =>
      few visited (List.mem_append_left _ member)
    have shorter := inductionHypothesis fewBefore
    obtain ⟨addrs, invariant⟩ := RegInvariant.run run fewBefore
    have fewNow := few (thread, event) (List.mem_append_right _ (List.mem_singleton_self _))
    obtain ⟨_, others, call, kept, timed, untimed⟩ := invariant.step (invariant.few fewNow)
      (RegThread.perform_concerns taken)
    obtain rfl := Option.some.inj (call.symm.trans taken)
    simp only [List.forall_mem_append, List.forall_mem_singleton]
    rw [kept.tracked_iff]
    constructor
    · rintro ⟨⟨visited, now⟩, after⟩
      exact ⟨shorter.mp ⟨visited, now⟩, fun finishes => untimed finishes after⟩
    · rintro ⟨unfinished, last⟩
      obtain ⟨visited, now⟩ := shorter.mpr unfinished
      exact ⟨⟨visited, now⟩, timed last (invariant.tracked_iff.mp now)⟩

end Runs

/-- A peer without data. -/
def quietPeer : RegClient := ⟨⟨[], [], .eblock, [], [], .eblock⟩, [127, 0, 0, 1], [], 0⟩

/-- Two clients whose handshakes are done at once, and one whose handshake is not. The first one runs
out of time. -/
def threeConnect : List RegEvent :=
  [.connect quietPeer .done ⟨1, 0⟩, .connect quietPeer .pending ⟨2, 0⟩,
    .connect quietPeer .done ⟨3, 0⟩,
    .client 1 ⟨false, none, quietPeer.connection, .pending, ⟨sha256OfLetter, false, 2⟩⟩,
    .timeouts ⟨6, 0⟩]

/-- The heap holds the deadline of the client that is left and finished its handshake. -/
theorem registration_deadlines_iff_three_clients :
    ∃ history thread, Traced RegThread.perform (regThreadStart noTables) history thread ∧
      thread.clients 0 = none ∧ thread.timers.clth.heap.numClients = 1 ∧
      (∀ visited ∈ history, DeadlinesTracked visited.1) ∧ DeadlinesTracked thread := by
  have executed : (traceAll RegThread.perform (regThreadStart noTables) threeConnect).map
      (fun (history, thread) => (thread.clients 0, thread.timers.clth.heap.numClients,
        decide (∀ visited ∈ history, visited.1.allocated < 2 ^ 31),
        decide (∀ visited ∈ history, ¬ FinishesHandshake visited.1 visited.2))) =
      some (none, 1, true, true) := by
    decide +kernel
  obtain ⟨⟨history, thread⟩, traced, same⟩ := Option.map_eq_some_iff.mp executed
  simp only [Prod.mk.injEq, decide_eq_true_eq] at same
  obtain ⟨gone, one, few, unfinished⟩ := same
  have run := Traced.start.traceAll traced
  exact ⟨_, _, run, gone, one,
    (registration_deadlines_iff run (fewClients_of_allocated run few)).mpr unfinished⟩

/-- A client whose handshake is done when there is an event of it has none. -/
theorem registration_client_without_deadline :
    ¬ ∀ (tables : RegTables) (history : List (RegThread × RegEvent)) (thread : RegThread),
      Traced RegThread.perform (regThreadStart tables) history thread →
        (∀ visited ∈ history, FewClients visited.1) → DeadlinesTracked thread := by
  intro claim
  have idle : Traced RegThread.perform (regThreadStart noTables) [] _ := .start
  have run := (idle.step
    (rfl : RegThread.perform _ (.connect quietPeer .pending ⟨1, 0⟩) = some _)).step
    (rfl : RegThread.perform _ (.client 0 ⟨false, none, quietPeer.connection, .done,
      ⟨sha256OfLetter, false, 2⟩⟩) = some _)
  have tracked := claim _ _ _ run (fewClients_of_allocated run (by decide +kernel))
  obtain ⟨slot, inside, _⟩ := (tracked [0] ⟨rfl, rfl⟩).1 0 (List.mem_singleton_self 0) rfl
  exact absurd inside (Nat.not_lt_zero slot)

end Lwmsg
