/-
This file is about the locks of the database: the calls of `validate_auth` on the connections of
the workers and of `process_reg_req` on that of the registration thread, in any order.

Of SQLite with a rollback journal it takes that a statement which stepped to a row, or whose step
failed with `SQLITE_BUSY`, keeps its lock until it is reset, that a change is not committed while a
worker reads, and that nobody reads while a change waits to be committed. A function resets its
statement when it starts; what it does after its step touches nothing that is shared.
-/

import Lwmsg.Dbops
import Lwmsg.Traced
import Mathlib.Data.Finset.Basic

namespace Lwmsg

open Bytes Pointers

/-! ### Connections -/

/-- What befalls a step from outside of the server: nothing, a lock of another process, or an
error. -/
inductive StepTrouble
  | untroubled
  | locked
  | failed
  deriving DecidableEq, Repr

/-- A worker is not in `validate_auth`, or has reset its statement for a request. -/
inductive LoginTask
  | idle
  | fetching (req : AuthReqGroup)
  deriving DecidableEq, Repr

/-- The registration thread is not in `process_reg_req`, or has reset the statement of a request. -/
inductive RegTask
  | idle
  | executing (stmt : RegStatement) (req : AuthReqGroup)
  deriving DecidableEq, Repr

/-- The setting `use_auth`, the table, the workers whose statement is active, whether the statements
of the registration thread are, and what everyone is doing. -/
structure DbWorld where
  useAuth : Bool
  users : Users
  readers : Finset Nat
  writing : RegStatement → Bool
  logins : Nat → LoginTask
  registration : RegTask

inductive DbEvent
  | validateAuth (worker : Nat) (req : AuthReqGroup)
  | fetchStep (worker : Nat) (trouble : StepTrouble)
  | processRegReq (stmt : RegStatement) (req : AuthReqGroup)
  | regStep (trouble : StepTrouble)
  deriving DecidableEq, Repr

/-- What `sqlite3_step` answers. -/
inductive StepResult
  | row (passwordSha256 : Bytes)
  | done (users : Users) (changes : Nat)
  | busy
  | error

namespace DbWorld

/-- The registration thread holds a lock. -/
def writes (world : DbWorld) : Bool := world.writing .reg || world.writing .del

/-- `sqlite3_step` of a worker. -/
def fetchResult (world : DbWorld) (req : AuthReqGroup) : StepTrouble → StepResult
  | .failed => .error
  | .locked => .busy
  | .untroubled =>
    if world.writes then .busy
    else
      match world.users.fetch (cString req.username) with
      | none => .done world.users 0
      | some passwordSha256 => .row passwordSha256

/-- `sqlite3_step` of the registration thread. -/
def regResult (sha256 : Bytes → Bytes) (world : DbWorld) (stmt : RegStatement)
    (req : AuthReqGroup) : StepTrouble → StepResult
  | .failed => .error
  | .locked => .busy
  | .untroubled =>
    match stmt.step world.users (cString req.username)
      (passwordHash sha256 (cString req.password)) with
    | none => .error
    | some (users, changes) =>
      if changes = 0 ∨ world.readers = ∅ then .done users changes else .busy

def withLogin (world : DbWorld) (worker : Nat) (task : LoginTask) : DbWorld :=
  { world with logins := Function.update world.logins worker task }

def withWriting (world : DbWorld) (stmt : RegStatement) (active : Bool) : DbWorld :=
  { world with writing := Function.update world.writing stmt active }

/-- One step: a call resets its statement, or steps it and returns. -/
def step (sha256 : Bytes → Bytes) (world : DbWorld) : DbEvent → Option DbWorld
  | .validateAuth worker req =>
    match world.logins worker with
    | .idle =>
      if world.useAuth then
        some ({ world with readers := world.readers.erase worker }.withLogin worker
          (.fetching req.normalized))
      else some world
    | .fetching _ => none
  | .fetchStep worker trouble =>
    match world.logins worker with
    | .idle => none
    | .fetching req =>
      match world.fetchResult req trouble with
      | .row _ | .busy =>
        some ({ world with readers := insert worker world.readers }.withLogin worker .idle)
      | .done _ _ | .error => some (world.withLogin worker .idle)
  | .processRegReq stmt req =>
    match world.registration with
    | .idle =>
      some { world.withWriting stmt false with registration := .executing stmt req.normalized }
    | .executing _ _ => none
  | .regStep trouble =>
    match world.registration with
    | .idle => none
    | .executing stmt req =>
      match world.regResult sha256 stmt req trouble with
      | .row _ | .busy => some { world.withWriting stmt true with registration := .idle }
      | .done users _ => some { world with users, registration := .idle }
      | .error => some { world with registration := .idle }

/-- None of the functions is executing. -/
def AllIdle (world : DbWorld) : Prop :=
  (∀ worker, world.logins worker = .idle) ∧ world.registration = .idle

/-- No prepared statement is active. -/
def NothingActive (world : DbWorld) : Prop :=
  world.readers = ∅ ∧ ∀ stmt, world.writing stmt = false

/-- The step is refused, though nothing but a call that has returned holds a lock. -/
def RefusedByFinished (sha256 : Bytes → Bytes) (world : DbWorld) : DbEvent → Prop
  | .fetchStep worker trouble => ∃ req, world.logins worker = .fetching req ∧
    trouble = .untroubled ∧ world.fetchResult req trouble = .busy ∧ world.registration = .idle
  | .regStep trouble => ∃ stmt req, world.registration = .executing stmt req ∧
    trouble = .untroubled ∧ world.regResult sha256 stmt req trouble = .busy ∧
    ∀ worker ∈ world.readers, world.logins worker = .idle
  | .validateAuth _ _ | .processRegReq _ _ => False

/-- A login does not find its user in the table, and no step meets a lock of another process. -/
def StepsClear (world : DbWorld) : DbEvent → Prop
  | .fetchStep worker trouble => trouble ≠ .locked ∧ ∀ req, world.logins worker = .fetching req →
    world.users.fetch (cString req.username) = none
  | .regStep trouble => trouble ≠ .locked
  | .validateAuth _ _ | .processRegReq _ _ => True

end DbWorld

/-- The server when it starts, with a table. -/
def dbStart (useAuth : Bool) (users : Users) : DbWorld where
  useAuth
  users
  readers := ∅
  writing := fun _ => false
  logins := fun _ => .idle
  registration := .idle

/-! ### Locks -/

section
variable {sha256 : Bytes → Bytes} {world next : DbWorld} {event : DbEvent}

theorem DbWorld.NothingActive.writes (nothing : world.NothingActive) : world.writes = false := by
  rw [DbWorld.writes, nothing.2, nothing.2]
  rfl

/-- A clear step of a worker neither gets a row nor meets a lock. -/
theorem DbWorld.NothingActive.fetchResult (nothing : world.NothingActive) {req : AuthReqGroup}
    {trouble : StepTrouble} (unlocked : trouble ≠ .locked)
    (missing : world.users.fetch (cString req.username) = none) :
    world.fetchResult req trouble = .error ∨
      world.fetchResult req trouble = .done world.users 0 := by
  cases trouble with
  | untroubled =>
    right
    simp only [DbWorld.fetchResult, nothing.writes, missing, Bool.false_eq_true, if_false]
  | locked => exact absurd rfl unlocked
  | failed => exact .inl rfl

/-- A step of the registration thread does not meet a lock where nobody reads. -/
theorem DbWorld.NothingActive.regResult (nothing : world.NothingActive) {stmt : RegStatement}
    {req : AuthReqGroup} {trouble : StepTrouble} (unlocked : trouble ≠ .locked) :
    world.regResult sha256 stmt req trouble = .error ∨
      ∃ users changes, world.regResult sha256 stmt req trouble = .done users changes := by
  cases trouble with
  | untroubled =>
    simp only [DbWorld.regResult, nothing.1, or_true, if_true]
    cases stmt.step world.users (cString req.username)
      (passwordHash sha256 (cString req.password)) with
    | none => exact .inl rfl
    | some changed => exact .inr ⟨changed.1, changed.2, rfl⟩
  | locked => exact absurd rfl unlocked
  | failed => exact .inl rfl

/-- A clear step activates nothing that stays active. -/
theorem DbWorld.NothingActive.step (nothing : world.NothingActive)
    (clear : world.StepsClear event) (taken : world.step sha256 event = some next) :
    next.NothingActive := by
  obtain ⟨unread, unwritten⟩ := nothing
  cases event with
  | validateAuth worker req =>
    simp only [DbWorld.step] at taken
    split at taken
    · split at taken
      · obtain rfl := Option.some.inj taken
        refine ⟨?_, unwritten⟩
        show world.readers.erase worker = ∅
        rw [unread, Finset.erase_empty]
      · obtain rfl := Option.some.inj taken
        exact ⟨unread, unwritten⟩
    · cases taken
  | fetchStep worker trouble =>
    simp only [DbWorld.step] at taken
    split at taken
    · cases taken
    · rename_i req fetching
      obtain ⟨unlocked, missing⟩ := clear
      have result := DbWorld.NothingActive.fetchResult ⟨unread, unwritten⟩ unlocked
        (missing req fetching)
      rcases result with result | result
      · rw [result] at taken
        obtain rfl := Option.some.inj taken
        exact ⟨unread, unwritten⟩
      · rw [result] at taken
        obtain rfl := Option.some.inj taken
        exact ⟨unread, unwritten⟩
  | processRegReq stmt req =>
    simp only [DbWorld.step] at taken
    split at taken
    · obtain rfl := Option.some.inj taken
      refine ⟨unread, fun other => ?_⟩
      show Function.update world.writing stmt false other = false
      by_cases same : other = stmt
      · rw [same, Function.update_self]
      · rw [Function.update_of_ne same, unwritten]
    · cases taken
  | regStep trouble =>
    simp only [DbWorld.step] at taken
    split at taken
    · cases taken
    · rename_i stmt req executing
      have result := @DbWorld.NothingActive.regResult sha256 world ⟨unread, unwritten⟩ stmt req
        trouble clear
      rcases result with result | ⟨users, changes, result⟩
      · rw [result] at taken
        obtain rfl := Option.some.inj taken
        exact ⟨unread, unwritten⟩
      · rw [result] at taken
        obtain rfl := Option.some.inj taken
        exact ⟨unread, unwritten⟩

/-- Where nothing is active, nobody is refused by a call that has returned. -/
theorem DbWorld.NothingActive.not_refused (nothing : world.NothingActive) :
    ¬ world.RefusedByFinished sha256 event := by
  intro refused
  cases event with
  | validateAuth worker req => exact refused
  | processRegReq stmt req => exact refused
  | fetchStep worker trouble =>
    obtain ⟨req, _, rfl, busy, _⟩ := refused
    simp only [DbWorld.fetchResult, nothing.writes, Bool.false_eq_true, if_false] at busy
    split at busy
    · cases busy
    · cases busy
  | regStep trouble =>
    obtain ⟨stmt, req, _, rfl, busy, _⟩ := refused
    rcases @DbWorld.NothingActive.regResult sha256 world nothing stmt req .untroubled (by simp) with
      result | ⟨users, changes, result⟩
    · rw [result] at busy
      cases busy
    · rw [result] at busy
      cases busy

end

/-- In a run whose logins do not find their users and which meets no lock of another process, no
prepared statement is active whenever none of the functions is executing, and no call is refused
because of one that has returned. -/
theorem no_lock_left {sha256 : Bytes → Bytes} {useAuth : Bool} {users : Users}
    {history : List (DbWorld × DbEvent)} {world : DbWorld}
    (run : Traced (DbWorld.step sha256) (dbStart useAuth users) history world)
    (clear : ∀ visited ∈ history, visited.1.StepsClear visited.2) :
    (world.AllIdle → world.NothingActive) ∧
      ∀ visited ∈ history, (visited.1.AllIdle → visited.1.NothingActive) ∧
        ¬ visited.1.RefusedByFinished sha256 visited.2 := by
  have inactive : ∀ {earlier : List (DbWorld × DbEvent)} {reached : DbWorld},
      Traced (DbWorld.step sha256) (dbStart useAuth users) earlier reached →
      (∀ visited ∈ earlier, visited.1.StepsClear visited.2) → reached.NothingActive := by
    intro earlier reached part safe
    refine part.invariant ⟨rfl, fun _ => rfl⟩ ?_
    intro visited member nothing next taken
    exact nothing.step (safe visited member) taken
  refine ⟨fun _ => inactive run clear, ?_⟩
  intro visited member
  obtain ⟨earlier, later, split⟩ := List.append_of_mem member
  have nothing := inactive (run.before split) fun old inside =>
    clear old (split ▸ List.mem_append_left _ inside)
  exact ⟨fun _ => nothing, nothing.not_refused⟩

/-- A login under a name that nobody has registered, and then the registration of the name. -/
def missedLogin : List DbEvent :=
  [.validateAuth 0 (bobRequest 97), .fetchStep 0 .untroubled, .processRegReq .reg (bobRequest 97),
    .regStep .untroubled]

theorem no_lock_left_missed_login :
    ∃ history world, Traced (DbWorld.step sha256OfLetter) (dbStart true .empty) history world ∧
      (world.AllIdle → world.NothingActive) ∧
      ∀ visited ∈ history, (visited.1.AllIdle → visited.1.NothingActive) ∧
        ¬ visited.1.RefusedByFinished sha256OfLetter visited.2 := by
  have run := Traced.start.traceAll
    (@rfl _ (traceAll (DbWorld.step sha256OfLetter) (dbStart true .empty) missedLogin))
  refine ⟨_, _, run, no_lock_left run ?_⟩
  rintro visited (_ | ⟨_, _ | ⟨_, _ | ⟨_, _ | ⟨_, none⟩⟩⟩⟩)
  · trivial
  · exact ⟨by decide, fun req _ => rfl⟩
  · trivial
  · show StepTrouble.untroubled ≠ .locked
    decide
  · cases none

/-- A registered user logs in, and then another name is registered. -/
def loginThenRegistration : List DbEvent :=
  [.processRegReq .reg (bobRequest 97), .regStep .untroubled, .validateAuth 0 (bobRequest 97),
    .fetchStep 0 .untroubled]

/-- After the login has returned, its statement is active, and the registration is refused. -/
theorem lock_left_by_login :
    ¬ ∀ useAuth users history world,
      Traced (DbWorld.step sha256OfLetter) (dbStart useAuth users) history world →
      world.AllIdle → world.NothingActive := by
  intro claim
  have run := Traced.start.traceAll
    (@rfl _ (traceAll (DbWorld.step sha256OfLetter) (dbStart true .empty) loginThenRegistration))
  obtain ⟨unread, _⟩ := claim true .empty _ _ run ⟨by rintro (_ | _) <;> rfl, rfl⟩
  exact absurd unread (by decide)

end Lwmsg
