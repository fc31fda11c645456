/-
This file models the registration thread and the control thread with the records of
`reg_ipblock_tbl` between them: `handle_new_connections` and the execution of requests of
`server/registration.c`, and the control commands `reg_ipblock` and `reg_unblock`.

Each operation on the table is one step of its thread. A record carries how many registrations were
executed since it was made, which the program does not keep.
-/

import Lwmsg.IpblockRaces
import Lwmsg.Registration

namespace Lwmsg

open Bytes Pointers

/-! ### The two threads -/

/-- A record, with the number of registrations from its address that were successful while it was in
the table and not expired, and the one it was made for. -/
structure RegisteredRec extends RegIpbRec where
  registered : Nat
  deriving DecidableEq, Repr

/-- What the registration thread is doing with the records, which have their places in the list of
all that were made. -/
inductive RegblockTask
  | idle
  | checking (place : Nat)
  | removing (place : Nat)
  | managing (peerName : Bytes) (requestResult : Bool)
  | counting (place : Nat) (requestResult : Bool)
  | creating (peerName : Bytes) (requestResult : Bool)
  deriving DecidableEq, Repr

/-- The clock, the table of users, the records that were made, the place of the record of an
address, the task of the registration thread, and the addresses of its clients. -/
structure RegblockWorld where
  clock : Nat
  users : Users
  records : List RegisteredRec
  table : Bytes → Option Nat
  task : RegblockTask
  clients : List Bytes

inductive RegblockEvent
  | tick (seconds : Nat)
  | acceptGet (peerName : Bytes)
  | acceptCheck
  | acceptRemove
  | disconnect (peerName : Bytes)
  | request (peerName : Bytes) (req : AuthReqGroup) (busy : Bool)
  | postMortem (peerName : Bytes) (req : AuthReqGroup) (busy : Bool)
  | manageGet
  | manageCount
  | manageAdd
  | regIpblock (peerName : Bytes)
  | regUnblock (peerName : Bytes)
  deriving DecidableEq, Repr

namespace RegblockWorld

/-- The record of an address. -/
def record? (world : RegblockWorld) (peerName : Bytes) : Option RegisteredRec :=
  (world.table peerName).bind (world.records[·]?)

/-- A connection is accepted, and its client is tracked. -/
def track (world : RegblockWorld) (peerName : Bytes) : RegblockWorld :=
  { world with clients := peerName :: world.clients, task := .idle }

/-- `htable_remove`. -/
def remove (world : RegblockWorld) (peerName : Bytes) : RegblockWorld :=
  { world with table := Function.update world.table peerName none }

/-- A record is made and given to `htable_add`, which refuses it if there is one. -/
def add (world : RegblockWorld) (peerName : Bytes) (reason : RecordReason) : RegblockWorld :=
  let ripbr := regIpbRecCreate peerName reason world.clock
  match world.table peerName with
  | some _ => world
  | none =>
    { world with
      records := world.records ++ [⟨ripbr, ripbr.succRegs.toNat⟩]
      table := Function.update world.table peerName (some world.records.length) }

/-- An attempt is counted in the record at a place. -/
def count (world : RegblockWorld) (place : Nat) (reason : RecordReason) : RegblockWorld :=
  { world with
    records := world.records.modify place fun ripbr =>
      ⟨ripbr.countAttempt reason, ripbr.registered⟩ }

/-- A registration from an address was successful. -/
def register (world : RegblockWorld) (peerName : Bytes) : RegblockWorld :=
  match world.table peerName with
  | none => world
  | some place =>
    { world with
      records := world.records.modify place fun ripbr =>
        if chkRegBlock ripbr.toRegIpbRec world.clock = .expired then ripbr
        else { ripbr with registered := ripbr.registered + 1 } }

/-- A request from an address is executed, and its client is cleaned up. -/
def execute (sha256 : Bytes → Bytes) (world : RegblockWorld) (peerName : Bytes)
    (req : AuthReqGroup) (busy : Bool) : Bool × RegblockWorld :=
  let (result, users) := executeStmt sha256 busy world.users req
  let executed := { world with users, clients := world.clients.erase peerName }
  if result ∧ requestStmt req.requestType = some .reg then (result, executed.register peerName)
  else (result, executed)

/-- One step, or nothing where the registration thread is doing something else. -/
def step (sha256 : Bytes → Bytes) (world : RegblockWorld) : RegblockEvent → Option RegblockWorld
  | .tick seconds => some { world with clock := world.clock + seconds }
  | .acceptGet peerName =>
    match world.task, world.table peerName with
    | .idle, some place => some { world with task := .checking place }
    | .idle, none => some (world.track peerName)
    | _, _ => none
  | .acceptCheck =>
    match world.task with
    | .checking place =>
      world.records[place]?.map fun ripbr =>
        match chkRegBlock ripbr.toRegIpbRec world.clock with
        | .expired => { world with task := .removing place }
        | .blocked => { world with task := .idle }
        | .notBlocked => world.track ripbr.ipAddr
    | _ => none
  | .acceptRemove =>
    match world.task with
    | .removing place =>
      world.records[place]?.map fun ripbr => (world.remove ripbr.ipAddr).track ripbr.ipAddr
    | _ => none
  | .disconnect peerName =>
    match world.task with
    | .idle => some { world with clients := world.clients.erase peerName }
    | _ => none
  | .request peerName req busy =>
    match world.task with
    | .idle =>
      if peerName ∈ world.clients then
        let (result, executed) := world.execute sha256 peerName req busy
        if countsRequest req.requestType result then
          some { executed with task := .managing peerName result }
        else some executed
      else none
    | _ => none
  | .postMortem peerName req busy =>
    match world.task with
    | .idle =>
      if peerName ∈ world.clients then some (world.execute sha256 peerName req busy).2 else none
    | _ => none
  | .manageGet =>
    match world.task with
    | .managing peerName requestResult =>
      match world.table peerName with
      | some place => some { world with task := .counting place requestResult }
      | none => some { world with task := .creating peerName requestResult }
    | _ => none
  | .manageCount =>
    match world.task with
    | .counting place requestResult =>
      some { world.count place (ripbReason requestResult) with task := .idle }
    | _ => none
  | .manageAdd =>
    match world.task with
    | .creating peerName requestResult =>
      some { world.add peerName (ripbReason requestResult) with task := .idle }
    | _ => none
  | .regIpblock peerName =>
    some (if peerName = inaddrNone then world else world.add peerName .manual)
  | .regUnblock peerName =>
    some (if peerName = inaddrNone then world else world.remove peerName)

/-- What each event does where it is taken. -/
inductive Taken (sha256 : Bytes → Bytes) (world : RegblockWorld) :
    RegblockEvent → RegblockWorld → Prop
  | tick (seconds : Nat) :
      Taken sha256 world (.tick seconds) { world with clock := world.clock + seconds }
  | checking {place peerName} (task : world.task = .idle)
      (there : world.table peerName = some place) :
      Taken sha256 world (.acceptGet peerName) { world with task := .checking place }
  | unknown {peerName} (task : world.task = .idle) (missing : world.table peerName = none) :
      Taken sha256 world (.acceptGet peerName) (world.track peerName)
  | expired {place ripbr} (task : world.task = .checking place)
      (there : world.records[place]? = some ripbr)
      (expired : chkRegBlock ripbr.toRegIpbRec world.clock = .expired) :
      Taken sha256 world .acceptCheck { world with task := .removing place }
  | blocked {place ripbr} (task : world.task = .checking place)
      (there : world.records[place]? = some ripbr)
      (blocked : chkRegBlock ripbr.toRegIpbRec world.clock = .blocked) :
      Taken sha256 world .acceptCheck { world with task := .idle }
  | passed {place ripbr} (task : world.task = .checking place)
      (there : world.records[place]? = some ripbr)
      (passed : chkRegBlock ripbr.toRegIpbRec world.clock = .notBlocked) :
      Taken sha256 world .acceptCheck (world.track ripbr.ipAddr)
  | removed {place ripbr} (task : world.task = .removing place)
      (there : world.records[place]? = some ripbr) :
      Taken sha256 world .acceptRemove ((world.remove ripbr.ipAddr).track ripbr.ipAddr)
  | disconnect {peerName} (task : world.task = .idle) :
      Taken sha256 world (.disconnect peerName)
        { world with clients := world.clients.erase peerName }
  | managed {peerName req busy} (task : world.task = .idle) (tracked : peerName ∈ world.clients)
      (counts : countsRequest req.requestType (world.execute sha256 peerName req busy).1 = true) :
      Taken sha256 world (.request peerName req busy)
        { (world.execute sha256 peerName req busy).2 with
          task := .managing peerName (world.execute sha256 peerName req busy).1 }
  | unmanaged {peerName req busy} (task : world.task = .idle) (tracked : peerName ∈ world.clients)
      (counts : ¬ countsRequest req.requestType (world.execute sha256 peerName req busy).1 = true) :
      Taken sha256 world (.request peerName req busy) (world.execute sha256 peerName req busy).2
  | postMortem {peerName req busy} (task : world.task = .idle)
      (tracked : peerName ∈ world.clients) :
      Taken sha256 world (.postMortem peerName req busy)
        (world.execute sha256 peerName req busy).2
  | counting {peerName requestResult place} (task : world.task = .managing peerName requestResult)
      (there : world.table peerName = some place) :
      Taken sha256 world .manageGet { world with task := .counting place requestResult }
  | creating {peerName requestResult} (task : world.task = .managing peerName requestResult)
      (missing : world.table peerName = none) :
      Taken sha256 world .manageGet { world with task := .creating peerName requestResult }
  | counted {place requestResult} (task : world.task = .counting place requestResult) :
      Taken sha256 world .manageCount
        { world.count place (ripbReason requestResult) with task := .idle }
  | added {peerName requestResult} (task : world.task = .creating peerName requestResult) :
      Taken sha256 world .manageAdd
        { world.add peerName (ripbReason requestResult) with task := .idle }
  | notOrdered : Taken sha256 world (.regIpblock inaddrNone) world
  | ordered {peerName} (proper : peerName ≠ inaddrNone) :
      Taken sha256 world (.regIpblock peerName) (world.add peerName .manual)
  | notLifted : Taken sha256 world (.regUnblock inaddrNone) world
  | lifted {peerName} (proper : peerName ≠ inaddrNone) :
      Taken sha256 world (.regUnblock peerName) (world.remove peerName)

theorem step_taken {sha256 : Bytes → Bytes} {world next : RegblockWorld} {event : RegblockEvent}
    (taken : world.step sha256 event = some next) : Taken sha256 world event next := by
  cases event with
  | tick seconds =>
    obtain rfl := Option.some.inj taken
    exact .tick seconds
  | acceptGet peerName =>
    simp only [step] at taken
    split at taken
    · rename_i task there
      obtain rfl := Option.some.inj taken
      exact .checking task there
    · rename_i task missing
      obtain rfl := Option.some.inj taken
      exact .unknown task missing
    · cases taken
  | acceptCheck =>
    simp only [step] at taken
    split at taken
    · rename_i place task
      obtain ⟨ripbr, there, rfl⟩ := Option.map_eq_some_iff.mp taken
      split
      · rename_i expired
        exact .expired task there expired
      · rename_i blocked
        exact .blocked task there blocked
      · rename_i passed
        exact .passed task there passed
    · cases taken
  | acceptRemove =>
    simp only [step] at taken
    split at taken
    · rename_i place task
      obtain ⟨ripbr, there, rfl⟩ := Option.map_eq_some_iff.mp taken
      exact .removed task there
    · cases taken
  | disconnect peerName =>
    simp only [step] at taken
    split at taken
    · rename_i task
      obtain rfl := Option.some.inj taken
      exact .disconnect task
    · cases taken
  | request peerName req busy =>
    simp only [step] at taken
    split at taken
    · rename_i task
      split at taken
      · rename_i tracked
        split at taken
        · rename_i counts
          obtain rfl := Option.some.inj taken
          exact .managed task tracked counts
        · rename_i counts
          obtain rfl := Option.some.inj taken
          exact .unmanaged task tracked counts
      · cases taken
    · cases taken
  | postMortem peerName req busy =>
    simp only [step] at taken
    split at taken
    · rename_i task
      split at taken
      · rename_i tracked
        obtain rfl := Option.some.inj taken
        exact .postMortem task tracked
      · cases taken
    · cases taken
  | manageGet =>
    simp only [step] at taken
    split at taken
    · rename_i peerName requestResult task
      split at taken
      · rename_i place there
        obtain rfl := Option.some.inj taken
        exact .counting task there
      · rename_i missing
        obtain rfl := Option.some.inj taken
        exact .creating task missing
    · cases taken
  | manageCount =>
    simp only [step] at taken
    split at taken
    · rename_i place requestResult task
      obtain rfl := Option.some.inj taken
      exact .counted task
    · cases taken
  | manageAdd =>
    simp only [step] at taken
    split at taken
    · rename_i peerName requestResult task
      obtain rfl := Option.some.inj taken
      exact .added task
    · cases taken
  | regIpblock peerName =>
    obtain rfl := Option.some.inj taken
    split
    · rename_i refused
      subst refused
      exact .notOrdered
    · rename_i proper
      exact .ordered proper
  | regUnblock peerName =>
    obtain rfl := Option.some.inj taken
    split
    · rename_i refused
      subst refused
      exact .notLifted
    · rename_i proper
      exact .lifted proper

end RegblockWorld

/-- The registration thread when it starts, with a table of users. -/
def regblockStart (clock : Nat) (users : Users) : RegblockWorld where
  clock
  users
  records := []
  table := fun _ => none
  task := .idle
  clients := []

/-! ### The records in one piece -/

/-- The tables as the handlers see them. -/
def RegblockWorld.tables (world : RegblockWorld) : RegTables where
  users := world.users
  regIpblockTbl := fun peerName => (world.record? peerName).map RegisteredRec.toRegIpbRec

/-- The record at the place of an address has that address. -/
def RegblockWorld.Sound (world : RegblockWorld) : Prop :=
  ∀ peerName place, world.table peerName = some place →
    ∃ ripbr, world.records[place]? = some ripbr ∧ ripbr.ipAddr = peerName

theorem RegblockWorld.getElem?_count {world : RegblockWorld} {place other : Nat}
    {reason : RecordReason} : (world.count place reason).records[other]? =
      if place = other then world.records[other]?.map fun ripbr =>
        ⟨ripbr.countAttempt reason, ripbr.registered⟩
      else world.records[other]? := by
  rw [RegblockWorld.count, List.getElem?_modify]
  split
  · rfl
  · simp

/-- Where nobody else comes in between, an attempt is counted as `manage_reg_ipbr` does it. -/
theorem RegblockWorld.manage {sha256 : Bytes → Bytes} {world found next : RegblockWorld}
    {peerName : Bytes} {requestResult : Bool} (sound : world.Sound)
    (task : world.task = .managing peerName requestResult)
    (get : world.step sha256 .manageGet = some found)
    (put : found.step sha256 .manageCount = some next ∨ found.step sha256 .manageAdd = some next) :
    next.tables =
      manageRegIpbr world.tables peerName (ripbReason requestResult) world.clock := by
  simp only [RegblockWorld.step, task] at get
  cases held : world.table peerName with
  | some place =>
    rw [held] at get
    obtain rfl := Option.some.inj get
    obtain ⟨ripbr, there, named⟩ := sound peerName place held
    rcases put with put | put
    · obtain rfl := Option.some.inj put
      simp only [RegblockWorld.tables, manageRegIpbr, RegTables.mk.injEq]
      refine ⟨rfl, ?_⟩
      funext other
      show ((world.table other).bind
        ((world.count place (ripbReason requestResult)).records[·]?)).map _ = _
      by_cases same : other = peerName
      · subst same
        simp [held, RegblockWorld.getElem?_count, there, RegblockWorld.record?]
      · rw [if_neg same, RegblockWorld.record?]
        cases elsewhere : world.table other with
        | none => rfl
        | some position =>
          obtain ⟨record, found, named'⟩ := sound other position elsewhere
          have apart : place ≠ position := by
            rintro rfl
            obtain rfl := Option.some.inj (there.symm.trans found)
            exact same (named'.symm.trans named)
          simp [RegblockWorld.getElem?_count, if_neg apart]
    · cases put
  | none =>
    rw [held] at get
    obtain rfl := Option.some.inj get
    rcases put with put | put
    · cases put
    · obtain rfl := Option.some.inj put
      simp only [RegblockWorld.tables, manageRegIpbr, RegTables.mk.injEq, RegblockWorld.add, held,
        true_and]
      funext other
      by_cases same : other = peerName
      · subst same
        simp [RegblockWorld.record?, held]
      · rw [if_neg same, RegblockWorld.record?, RegblockWorld.record?]
        simp only [Function.update_of_ne same]
        cases elsewhere : world.table other with
        | none => rfl
        | some position =>
          obtain ⟨record, found, _⟩ := sound other position elsewhere
          have within := (List.getElem?_eq_some_iff.mp found).1
          simp [List.getElem?_append_left within]

/-! ### The quota of registrations -/

/-- No more registrations than the threshold were successful since a record was made. -/
def RegblockWorld.QuotaKept (world : RegblockWorld) : Prop :=
  ∀ ripbr ∈ world.records, ripbr.registered ≤ regblockSuccThres.toNat

/-- A registration is executed for a client only where the record of its address, if there is one,
does not block it, and after a hangup only where there is no record that is not expired. -/
def RegblockWorld.SpendsSafely (world : RegblockWorld) : RegblockEvent → Prop
  | .request peerName req _ => requestStmt req.requestType = some .reg →
    ∀ ripbr, world.record? peerName = some ripbr →
      chkRegBlock ripbr.toRegIpbRec world.clock ≠ .blocked
  | .postMortem peerName req _ => requestStmt req.requestType = some .reg →
    ∀ ripbr, world.record? peerName = some ripbr →
      chkRegBlock ripbr.toRegIpbRec world.clock = .expired
  | _ => True

instance (world : RegblockWorld) (event : RegblockEvent) : Decidable (world.SpendsSafely event) :=
  match event with
  | .request peerName req _ => inferInstanceAs (Decidable (requestStmt req.requestType = some .reg →
      ∀ ripbr ∈ world.record? peerName, chkRegBlock ripbr.toRegIpbRec world.clock ≠ .blocked))
  | .postMortem peerName req _ =>
    inferInstanceAs (Decidable (requestStmt req.requestType = some .reg →
      ∀ ripbr ∈ world.record? peerName, chkRegBlock ripbr.toRegIpbRec world.clock = .expired))
  | .tick _ | .acceptGet _ | .acceptCheck | .acceptRemove | .disconnect _ | .manageGet
  | .manageCount | .manageAdd | .regIpblock _ | .regUnblock _ => isTrue trivial

/-- A successful registration from the address, or for the record in the place, is about to be
counted. -/
def RegblockTask.Pending (peerName : Bytes) (place : Nat) (task : RegblockTask) : Prop :=
  task = .managing peerName true ∨ task = .counting place true

/-- A record that was made for an attempt and is not expired. -/
def RegIpbRec.Active (ripbr : RegIpbRec) (clock : Nat) : Prop :=
  ripbr.isManual = false ∧ (clock : Int) - ripbr.timestamp < regblockExpiry

/-- The successful registration a record stands for is counted in it, or about to be. -/
structure Spends (clock : Nat) (task : RegblockTask) (peerName : Bytes) (place : Nat)
    (ripbr : RegisteredRec) : Prop where
  counted : ripbr.registered ≠ 0 → ripbr.succRegs ≠ 0 ∨ task.Pending peerName place
  uncounted : task.Pending peerName place → ripbr.succRegs = 0

/-- What the quota is kept by. -/
structure QuotaInvariant (world : RegblockWorld) : Prop where
  quota : world.QuotaKept
  sound : world.Sound
  spends : ∀ peerName place ripbr, world.table peerName = some place →
    world.records[place]? = some ripbr → ripbr.Active world.clock →
    Spends world.clock world.task peerName place ripbr

section
variable {world next : RegblockWorld} {peerName : Bytes} {place : Nat} {ripbr : RegisteredRec}

theorem chkRegBlock_not_blocked {ripbr : RegIpbRec} {clock : Nat}
    (passes : chkRegBlock ripbr clock ≠ .blocked) :
    ripbr.isManual = false ∧
      (chkRegBlock ripbr clock = .expired ∨ ripbr.Active clock ∧ ripbr.succRegs = 0) := by
  rw [chkRegBlock] at passes ⊢
  cases manual : ripbr.isManual with
  | true => simp [manual] at passes
  | false =>
    refine ⟨rfl, ?_⟩
    rw [manual] at passes
    simp only [Bool.false_eq_true, if_false] at passes ⊢
    by_cases old : (clock : Int) - ripbr.timestamp ≥ regblockExpiry
    · exact .inl (if_pos old)
    · rw [if_neg old] at passes
      by_cases reached : ripbr.failedRegs ≥ regblockFailThres ∨ ripbr.succRegs ≥ regblockSuccThres
      · rw [if_pos reached] at passes
        exact absurd rfl passes
      · refine .inr ⟨⟨manual, by omega⟩, ?_⟩
        have few : ¬ ripbr.succRegs ≥ regblockSuccThres := fun many => reached (.inr many)
        rw [ge_iff_le, UInt8.le_iff_toNat_le] at few
        apply UInt8.toNat_inj.mp
        have threshold : regblockSuccThres.toNat = 1 := rfl
        have zero : (0 : UInt8).toNat = 0 := rfl
        omega

theorem RegIpbRec.Active.not_expired {ripbr : RegIpbRec} {clock : Nat}
    (active : ripbr.Active clock) : chkRegBlock ripbr clock ≠ .expired := by
  obtain ⟨automatic, recent⟩ := active
  rw [chkRegBlock, automatic, if_neg (by simp), if_neg (by omega)]
  split
  · simp
  · simp

theorem RegIpbRec.Active.earlier {ripbr : RegIpbRec} {clock later : Nat}
    (active : ripbr.Active later) (order : clock ≤ later) : ripbr.Active clock := by
  obtain ⟨automatic, recent⟩ := active
  exact ⟨automatic, by omega⟩

/-- The records stay as they are, and no registration of a record in the table gets pending or
ceases to be. -/
theorem QuotaInvariant.keep (invariant : QuotaInvariant world)
    (records : next.records = world.records)
    (table : ∀ peerName place, next.table peerName = some place →
      world.table peerName = some place)
    (later : world.clock ≤ next.clock)
    (pending : ∀ peerName place ripbr, next.table peerName = some place →
      next.records[place]? = some ripbr → ripbr.Active next.clock →
      (next.task.Pending peerName place ↔ world.task.Pending peerName place)) :
    QuotaInvariant next where
  quota := by
    rw [RegblockWorld.QuotaKept, records]
    exact invariant.quota
  sound := by
    intro peerName place there
    rw [records]
    exact invariant.sound peerName place (table peerName place there)
  spends := by
    intro peerName place ripbr there found active
    have same := pending peerName place ripbr there found active
    rw [records] at found
    obtain ⟨counted, uncounted⟩ := invariant.spends peerName place ripbr
      (table peerName place there) found (active.earlier later)
    exact ⟨fun some => (counted some).imp_right same.mpr, fun now => uncounted (same.mp now)⟩

/-- The same, where neither task has a registration pending. -/
theorem QuotaInvariant.idle (invariant : QuotaInvariant world)
    (records : next.records = world.records)
    (table : ∀ peerName place, next.table peerName = some place →
      world.table peerName = some place)
    (later : world.clock ≤ next.clock)
    (before : ∀ peerName place, ¬ world.task.Pending peerName place)
    (after : ∀ peerName place, ¬ next.task.Pending peerName place) : QuotaInvariant next :=
  invariant.keep records table later fun peerName place _ _ _ _ =>
    iff_of_false (after peerName place) (before peerName place)

/-- An attempt is counted. -/
theorem QuotaInvariant.count (invariant : QuotaInvariant world) {requestResult : Bool}
    (task : world.task = .counting place requestResult) :
    QuotaInvariant { world.count place (ripbReason requestResult) with task := .idle } where
  quota := by
    intro ripbr member
    obtain ⟨other, found⟩ := List.mem_iff_getElem?.mp member
    rw [RegblockWorld.getElem?_count] at found
    split at found
    · obtain ⟨before, there, rfl⟩ := Option.map_eq_some_iff.mp found
      exact invariant.quota before (List.mem_of_getElem? there)
    · exact invariant.quota ripbr (List.mem_of_getElem? found)
  sound := by
    intro peerName other there
    obtain ⟨ripbr, found, named⟩ := invariant.sound peerName other there
    have kept : (ripbr.countAttempt (ripbReason requestResult)).ipAddr = peerName := by
      rw [RegIpbRec.countAttempt]
      split
      · exact named
      · exact named
    show ∃ ripbr, (world.count place (ripbReason requestResult)).records[other]? = some ripbr ∧ _
    rw [RegblockWorld.getElem?_count]
    split
    · exact ⟨_, by rw [found]; rfl, kept⟩
    · exact ⟨ripbr, found, named⟩
  spends := by
    intro peerName other ripbr there found active
    have quiet : ¬ RegblockTask.Pending peerName other .idle := by simp [RegblockTask.Pending]
    refine ⟨fun some => .inl ?_, fun now => absurd now quiet⟩
    have found : (world.count place (ripbReason requestResult)).records[other]? =
        Option.some ripbr := found
    rw [RegblockWorld.getElem?_count] at found
    split at found
    · rename_i same
      subst same
      obtain ⟨before, held, rfl⟩ := Option.map_eq_some_iff.mp found
      have recent : before.Active world.clock := by
        rw [RegIpbRec.countAttempt] at active
        split at active
        · exact active
        · exact active
      obtain ⟨counted, uncounted⟩ := invariant.spends peerName place before there held recent
      cases requestResult with
      | true =>
        have zero := uncounted (.inr task)
        show before.succRegs + 1 ≠ 0
        rw [zero]
        decide
      | false =>
        show before.succRegs ≠ 0
        rcases counted some with already | pending
        · exact already
        · rw [task] at pending
          simp [RegblockTask.Pending] at pending
    · rename_i apart
      obtain ⟨counted, _⟩ := invariant.spends peerName other ripbr there found active
      rcases counted some with already | pending
      · exact already
      · rw [task] at pending
        simp [RegblockTask.Pending, apart] at pending

/-- A record is made for an attempt, or by a command. -/
theorem QuotaInvariant.add (invariant : QuotaInvariant world) (peerName : Bytes)
    (reason : RecordReason) {task : RegblockTask}
    (same : ∀ peerName place, task.Pending peerName place ↔ world.task.Pending peerName place)
    (quiet : reason ≠ .manual → ∀ peerName place, ¬ task.Pending peerName place) :
    QuotaInvariant { world.add peerName reason with task } := by
  rw [RegblockWorld.add]
  split
  · exact invariant.keep rfl (fun _ _ there => there) le_rfl fun peerName place _ _ _ _ =>
      same peerName place
  · refine ⟨?_, ?_, ?_⟩
    · intro ripbr member
      rcases List.mem_append.mp member with old | new
      · exact invariant.quota ripbr old
      · rw [List.mem_singleton.mp new]
        show (if reason = .regsucc then (1 : UInt8) else 0).toNat ≤ regblockSuccThres.toNat
        split
        · decide
        · decide
    · intro other place there
      by_cases own : other = peerName
      · subst own
        simp only [Function.update_self, Option.some.injEq] at there
        subst there
        exact ⟨_, List.getElem?_concat_length, rfl⟩
      · simp only [Function.update_of_ne own] at there
        obtain ⟨ripbr, found, named⟩ := invariant.sound other place there
        refine ⟨ripbr, ?_, named⟩
        rw [List.getElem?_append_left (List.getElem?_eq_some_iff.mp found).1, found]
    · intro other place ripbr there found active
      by_cases own : other = peerName
      · subst own
        simp only [Function.update_self, Option.some.injEq] at there
        subst there
        rw [List.getElem?_concat_length] at found
        obtain rfl := Option.some.inj found
        have automatic : reason ≠ .manual := of_decide_eq_false active.1
        refine ⟨fun some => .inl fun zero => some ?_, fun now => absurd now (quiet automatic _ _)⟩
        show (regIpbRecCreate other reason world.clock).succRegs.toNat = 0
        rw [zero]
        rfl
      · simp only [Function.update_of_ne own] at there
        obtain ⟨_, held, _⟩ := invariant.sound other place there
        rw [List.getElem?_append_left (List.getElem?_eq_some_iff.mp held).1] at found
        obtain ⟨counted, uncounted⟩ := invariant.spends other place ripbr there found active
        exact ⟨fun some => (counted some).imp_right (same other place).mpr,
          fun now => uncounted ((same other place).mp now)⟩

theorem RegblockWorld.record?_eq_some (there : world.table peerName = some place)
    (found : world.records[place]? = some ripbr) : world.record? peerName = some ripbr := by
  rw [RegblockWorld.record?, there, Option.bind_some, found]

/-- A successful registration that finds its record expired is not one of the record. -/
theorem RegblockWorld.register_expired (sound : world.Sound)
    (expired : ∀ ripbr, world.record? peerName = some ripbr →
      chkRegBlock ripbr.toRegIpbRec world.clock = .expired) :
    (world.register peerName).records = world.records := by
  rw [RegblockWorld.register]
  split
  · rfl
  · rename_i place there
    obtain ⟨ripbr, found, _⟩ := sound peerName place there
    have old := expired ripbr (RegblockWorld.record?_eq_some there found)
    apply List.ext_getElem?
    intro other
    rw [List.getElem?_modify]
    by_cases same : place = other
    · subst same
      simp [found, old]
    · simp [same]

theorem RegblockWorld.register_same (world : RegblockWorld) (peerName : Bytes) :
    (world.register peerName).table = world.table ∧ (world.register peerName).clock = world.clock ∧
      (world.register peerName).task = world.task := by
  rw [RegblockWorld.register]
  split
  · exact ⟨rfl, rfl, rfl⟩
  · exact ⟨rfl, rfl, rfl⟩

/-- A registration that the record of its address does not block is successful. -/
theorem QuotaInvariant.register (invariant : QuotaInvariant world)
    (quiet : ∀ peerName place, ¬ world.task.Pending peerName place)
    (passes : ∀ ripbr, world.record? peerName = some ripbr →
      chkRegBlock ripbr.toRegIpbRec world.clock ≠ .blocked) :
    QuotaInvariant { world.register peerName with task := .managing peerName true } := by
  obtain ⟨table, clock, _⟩ := world.register_same peerName
  by_cases fresh : ∀ ripbr, world.record? peerName = some ripbr →
      chkRegBlock ripbr.toRegIpbRec world.clock = .expired
  · refine invariant.keep (RegblockWorld.register_expired invariant.sound fresh)
      (fun _ _ there => table ▸ there) clock.ge ?_
    intro other place ripbr there found active
    refine iff_of_false ?_ (quiet other place)
    rintro (now | now)
    · cases now
      rw [RegblockWorld.register_expired invariant.sound fresh] at found
      have there : world.table peerName = some place := table ▸ there
      exact active.not_expired (clock.symm ▸ fresh ripbr (RegblockWorld.record?_eq_some there found))
    · cases now
  · push Not at fresh
    obtain ⟨ripbr, held, unexpired⟩ := fresh
    obtain ⟨place, there, found⟩ := Option.bind_eq_some_iff.mp held
    obtain ⟨_, expired | ⟨active, unspent⟩⟩ := chkRegBlock_not_blocked (passes ripbr held)
    · exact absurd expired unexpired
    obtain ⟨counted, _⟩ := invariant.spends peerName place ripbr there found active
    have unregistered : ripbr.registered = 0 := by
      by_contra some
      rcases counted some with already | pending
      · exact already unspent
      · exact quiet peerName place pending
    have records : ∀ other, (world.register peerName).records[other]? =
        if place = other then some { ripbr with registered := 1 } else world.records[other]? := by
      intro other
      rw [RegblockWorld.register, there]
      show (world.records.modify place _)[other]? = _
      rw [List.getElem?_modify]
      by_cases same : place = other
      · subst same
        simp [found, unexpired, unregistered]
      · simp [same]
    refine ⟨?_, ?_, ?_⟩
    · intro record member
      obtain ⟨other, held⟩ := List.mem_iff_getElem?.mp member
      have now := (records other).symm.trans held
      split at now
      · obtain rfl := Option.some.inj now
        exact le_of_eq rfl
      · exact invariant.quota record (List.mem_of_getElem? now)
    · intro other position elsewhere
      have elsewhere : world.table other = some position := table ▸ elsewhere
      obtain ⟨record, held, named⟩ := invariant.sound other position elsewhere
      show ∃ ripbr, (world.register peerName).records[position]? = some ripbr ∧ _
      rw [records]
      split
      · rename_i same
        subst same
        obtain rfl := Option.some.inj (found.symm.trans held)
        exact ⟨_, rfl, named⟩
      · exact ⟨record, held, named⟩
    · intro other position record elsewhere held recent
      have elsewhere : world.table other = some position := table ▸ elsewhere
      have now := (records position).symm.trans held
      split at now
      · rename_i same
        subst same
        obtain rfl := Option.some.inj now
        obtain ⟨first, held, named⟩ := invariant.sound other place elsewhere
        obtain ⟨second, held', named'⟩ := invariant.sound peerName place there
        obtain rfl : other = peerName := by
          rw [← named, ← named', Option.some.inj (held.symm.trans held')]
        exact ⟨fun _ => .inr (.inl rfl), fun _ => unspent⟩
      · rename_i apart
        have recent : record.Active world.clock := clock ▸ recent
        obtain ⟨counted, _⟩ := invariant.spends other position record elsewhere now recent
        refine ⟨fun some => .inl ?_, ?_⟩
        · rcases counted some with already | pending
          · exact already
          · exact absurd pending (quiet other position)
        · rintro (now | now)
          · cases now
            exact absurd (Option.some.inj (there.symm.trans elsewhere)) apart
          · cases now

/-- The record of an address is found for an attempt that is to be counted. -/
theorem QuotaInvariant.counting (invariant : QuotaInvariant world) {peerName : Bytes}
    {requestResult : Bool} {place : Nat} (task : world.task = .managing peerName requestResult)
    (there : world.table peerName = some place) :
    QuotaInvariant { world with task := .counting place requestResult } := by
  refine invariant.keep rfl (fun _ _ there => there) le_rfl ?_
  intro other position ripbr elsewhere found _
  obtain ⟨first, held, named⟩ := invariant.sound peerName place there
  obtain ⟨second, held', named'⟩ := invariant.sound other position elsewhere
  simp only [RegblockTask.Pending, task, reduceCtorEq, false_or, or_false,
    RegblockTask.counting.injEq, RegblockTask.managing.injEq]
  constructor
  · rintro ⟨rfl, success⟩
    refine ⟨?_, success⟩
    rw [← named, ← named', Option.some.inj (held.symm.trans held')]
  · rintro ⟨rfl, success⟩
    exact ⟨Option.some.inj (there.symm.trans elsewhere), success⟩

/-- There is no record for an attempt that is to be counted. -/
theorem QuotaInvariant.creating (invariant : QuotaInvariant world) {peerName : Bytes}
    {requestResult : Bool} (task : world.task = .managing peerName requestResult)
    (missing : world.table peerName = none) :
    QuotaInvariant { world with task := .creating peerName requestResult } := by
  refine invariant.keep rfl (fun _ _ there => there) le_rfl ?_
  intro other position ripbr elsewhere found _
  refine iff_of_false (by simp [RegblockTask.Pending]) ?_
  rw [task]
  rintro (now | now)
  · cases now
    have there : world.table peerName = some position := elsewhere
    rw [missing] at there
    cases there
  · cases now

/-- A request is executed. -/
theorem RegblockWorld.execute_cases (sha256 : Bytes → Bytes) (world : RegblockWorld)
    (peerName : Bytes) (req : AuthReqGroup) (busy : Bool) :
    ∃ users clients, let executed : RegblockWorld := { world with users, clients }
      world.execute sha256 peerName req busy = (true, executed.register peerName) ∧
          requestStmt req.requestType = some .reg ∨
        ∃ result, world.execute sha256 peerName req busy = (result, executed) ∧
          (result = true → requestStmt req.requestType ≠ some .reg) := by
  refine ⟨(executeStmt sha256 busy world.users req).2, world.clients.erase peerName, ?_⟩
  rw [RegblockWorld.execute]
  generalize executeStmt sha256 busy world.users req = outcome
  obtain ⟨result, users⟩ := outcome
  simp only
  split
  · rename_i success
    rw [success.1]
    exact .inl ⟨rfl, success.2⟩
  · rename_i other
    exact .inr ⟨result, rfl, fun success registration => other ⟨success, registration⟩⟩

end

/-- Every step that spends safely keeps the invariant. -/
theorem QuotaInvariant.step {sha256 : Bytes → Bytes} {world next : RegblockWorld}
    {event : RegblockEvent} (invariant : QuotaInvariant world) (safe : world.SpendsSafely event)
    (taken : world.step sha256 event = some next) : QuotaInvariant next := by
  have quietIdle : ∀ peerName place, ¬ RegblockTask.Pending peerName place .idle := by
    simp [RegblockTask.Pending]
  have removed : ∀ key peerName place, Function.update world.table key none peerName = some place →
      world.table peerName = some place := by
    intro key peerName place there
    by_cases same : peerName = key
    · subst same
      rw [Function.update_self] at there
      cases there
    · rwa [Function.update_of_ne same] at there
  cases RegblockWorld.step_taken taken with
  | tick seconds =>
    exact invariant.keep rfl (fun _ _ there => there) (Nat.le_add_right _ _)
      fun _ _ _ _ _ _ => Iff.rfl
  | checking task there =>
    exact invariant.idle rfl (fun _ _ there => there) le_rfl (task ▸ quietIdle)
      (by simp [RegblockTask.Pending])
  | unknown task missing =>
    exact invariant.idle rfl (fun _ _ there => there) le_rfl (task ▸ quietIdle) quietIdle
  | expired task there expired =>
    exact invariant.idle rfl (fun _ _ there => there) le_rfl
      (by simp [RegblockTask.Pending, task]) (by simp [RegblockTask.Pending])
  | blocked task there blocked =>
    exact invariant.idle rfl (fun _ _ there => there) le_rfl
      (by simp [RegblockTask.Pending, task]) quietIdle
  | passed task there passed =>
    exact invariant.idle rfl (fun _ _ there => there) le_rfl
      (by simp [RegblockTask.Pending, task]) quietIdle
  | @removed place ripbr task there =>
    exact invariant.idle rfl (removed ripbr.ipAddr) le_rfl
      (by simp [RegblockTask.Pending, task]) quietIdle
  | disconnect task =>
    exact invariant.keep rfl (fun _ _ there => there) le_rfl fun _ _ _ _ _ _ => Iff.rfl
  | @managed peerName req busy task tracked counts =>
    obtain ⟨users, clients, ⟨executed, registration⟩ | ⟨result, executed, other⟩⟩ :=
      world.execute_cases sha256 peerName req busy
    · rw [executed]
      have ready : QuotaInvariant { world with users, clients } :=
        invariant.keep rfl (fun _ _ there => there) le_rfl fun _ _ _ _ _ _ => Iff.rfl
      exact ready.register (task ▸ quietIdle) (safe registration)
    · rw [executed] at counts ⊢
      cases result with
      | true => simp [countsRequest, other rfl] at counts
      | false =>
        exact invariant.idle rfl (fun _ _ there => there) le_rfl (task ▸ quietIdle)
          (by simp [RegblockTask.Pending])
  | @unmanaged peerName req busy task tracked counts =>
    obtain ⟨users, clients, ⟨executed, registration⟩ | ⟨result, executed, other⟩⟩ :=
      world.execute_cases sha256 peerName req busy
    · rw [executed] at counts
      simp [countsRequest, registration] at counts
    · rw [executed]
      have before : ∀ peerName place, ¬ world.task.Pending peerName place := task ▸ quietIdle
      exact invariant.idle rfl (fun _ _ there => there) le_rfl before before
  | @postMortem peerName req busy task tracked =>
    obtain ⟨users, clients, ⟨executed, registration⟩ | ⟨result, executed, _⟩⟩ :=
      world.execute_cases sha256 peerName req busy
    · rw [executed]
      have sound : RegblockWorld.Sound { world with users, clients } := invariant.sound
      obtain ⟨table, clock, same⟩ :=
        RegblockWorld.register_same { world with users, clients } peerName
      exact invariant.keep (RegblockWorld.register_expired sound (safe registration))
        (fun _ _ there => table ▸ there) clock.ge fun _ _ _ _ _ _ => by rw [same]
    · rw [executed]
      exact invariant.keep rfl (fun _ _ there => there) le_rfl fun _ _ _ _ _ _ => Iff.rfl
  | counting task there => exact invariant.counting task there
  | creating task missing => exact invariant.creating task missing
  | counted task => exact invariant.count task
  | @added peerName requestResult task =>
    exact invariant.add peerName (ripbReason requestResult)
      (fun _ _ => iff_of_false (quietIdle _ _) (by simp [RegblockTask.Pending, task]))
      fun _ => quietIdle
  | notOrdered => exact invariant
  | @ordered peerName proper =>
    have added := @QuotaInvariant.add world invariant peerName .manual world.task
      (fun _ _ => Iff.rfl) fun other => absurd rfl other
    have same : { world.add peerName .manual with task := world.task } =
        world.add peerName .manual := by
      rw [RegblockWorld.add]
      split
      · rfl
      · rfl
    exact same ▸ added
  | notLifted => exact invariant
  | @lifted peerName proper =>
    exact invariant.keep rfl (removed peerName) le_rfl fun _ _ _ _ _ _ => Iff.rfl

theorem regblockStart_quotaInvariant (clock : Nat) (users : Users) :
    QuotaInvariant (regblockStart clock users) where
  quota := by simp [RegblockWorld.QuotaKept, regblockStart]
  sound := by simp [RegblockWorld.Sound, regblockStart]
  spends := by simp [regblockStart]

/-- In a run of the two threads in which every registration is spent safely, the quota is kept in
every state. -/
theorem registration_quota_kept {sha256 : Bytes → Bytes} {clock : Nat} {users : Users}
    {history : List (RegblockWorld × RegblockEvent)} {world : RegblockWorld}
    (run : Traced (RegblockWorld.step sha256) (regblockStart clock users) history world)
    (safe : ∀ visited ∈ history, visited.1.SpendsSafely visited.2) :
    (∀ visited ∈ history, visited.1.QuotaKept) ∧ world.QuotaKept := by
  have kept : ∀ {earlier : List (RegblockWorld × RegblockEvent)} {reached : RegblockWorld},
      Traced (RegblockWorld.step sha256) (regblockStart clock users) earlier reached →
      (∀ visited ∈ earlier, visited.1.SpendsSafely visited.2) → QuotaInvariant reached := by
    intro earlier reached part spends
    refine part.invariant (regblockStart_quotaInvariant clock users) ?_
    intro visited member invariant next taken
    exact invariant.step (spends visited member) taken
  refine ⟨fun visited member => ?_, (kept run safe).quota⟩
  obtain ⟨earlier, later, split⟩ := List.append_of_mem member
  exact (kept (run.before split) fun old inside =>
    safe old (split ▸ List.mem_append_left _ inside)).quota

/-- A request for an account under a name of one letter. -/
def letterRequest (requestType : Nat) (letter : UInt8) : AuthReqGroup where
  requestType
  username := letter :: List.replicate 31 0
  password := 97 :: List.replicate 19 0

/-- Two addresses register one account each, and one of them comes back. -/
def registersAndReturns : List RegblockEvent :=
  [.acceptGet [127, 0, 0, 1], .acceptGet [127, 0, 0, 2],
    .request [127, 0, 0, 1] (letterRequest reqRegistration 98) false, .manageGet, .manageAdd,
    .request [127, 0, 0, 2] (letterRequest reqRegistration 99) false, .manageGet, .manageAdd,
    .acceptGet [127, 0, 0, 1], .acceptCheck]

/-- Each record counts one account, and who came back is not let in. -/
theorem registration_quota_kept_two_addresses :
    ∃ history world, Traced (RegblockWorld.step sha256OfLetter) (regblockStart 0 .empty) history
        world ∧ world.records.map RegisteredRec.registered = [1, 1] ∧ world.clients = [] ∧
      (∀ visited ∈ history, visited.1.QuotaKept) ∧ world.QuotaKept := by
  have executed : (traceAll (RegblockWorld.step sha256OfLetter) (regblockStart 0 .empty)
      registersAndReturns).map (fun (history, world) => (world.records.map RegisteredRec.registered,
        world.clients, decide (∀ visited ∈ history, visited.1.SpendsSafely visited.2))) =
      some ([1, 1], [], true) := by
    decide +kernel
  obtain ⟨⟨history, world⟩, traced, same⟩ := Option.map_eq_some_iff.mp executed
  simp only [Prod.mk.injEq, decide_eq_true_eq] at same
  obtain ⟨registered, clients, safe⟩ := same
  have run := Traced.start.traceAll traced
  exact ⟨_, _, run, registered, clients, registration_quota_kept run safe⟩

/-- Two connections from one address are accepted before either of them registers an account. -/
def registersTwice : List RegblockEvent :=
  [.acceptGet [127, 0, 0, 1], .acceptGet [127, 0, 0, 1],
    .request [127, 0, 0, 1] (letterRequest reqRegistration 98) false, .manageGet, .manageAdd,
    .request [127, 0, 0, 1] (letterRequest reqRegistration 99) false, .manageGet, .manageCount]

/-- Both registrations are successful. -/
theorem registration_quota_exceeded :
    ¬ ∀ clock users history world,
      Traced (RegblockWorld.step sha256OfLetter) (regblockStart clock users) history world →
      world.QuotaKept := by
  intro claim
  obtain ⟨history, world, executed, twice⟩ : ∃ history world,
      traceAll (RegblockWorld.step sha256OfLetter) (regblockStart 0 .empty) registersTwice =
        some (history, world) ∧ world.records.map RegisteredRec.registered = [2] :=
    ⟨_, _, rfl, by decide +kernel⟩
  have kept := claim 0 .empty _ _ (Traced.start.traceAll executed)
  have member : 2 ∈ world.records.map RegisteredRec.registered := by
    rw [twice]
    exact List.mem_singleton_self 2
  obtain ⟨ripbr, inside, two⟩ := List.mem_map.mp member
  have bound := kept ripbr inside
  rw [two] at bound
  exact absurd bound (by decide)

end Lwmsg
