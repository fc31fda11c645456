/-
This file models how the control thread opens and closes the port for registrations. The command
`registrations` stores the flag and then writes to an eventfd, and the registration thread that is
woken by it reads the eventfd, loads the flag, and starts or closes its listener. The two run at the
same time, each in steps that touch one of the shared variables, and everything that can fail fails
at times: the start of a listener, and `accept`.
-/

import Lwmsg.Doorbell
import Lwmsg.ServCfg
import Mathlib.Data.Finset.Option

namespace Lwmsg

open Bytes

/-! ### The two threads -/

/-- What the control thread is doing: it waits for a command, is about to write to one of the two
eventfds, or has left its loop. -/
inductive CtrlTask
  | idle
  | writingRegChanged
  | writingShutdown
  | ended
  deriving DecidableEq, Repr

/-- What the registration thread is doing: it starts and is about to load the flag, or has loaded it;
it waits in `epoll_wait` or serves its clients; it is in `handle_flg_reg_changed` in front of the
read, of the load, or of what the flag asks for; or it has ended. -/
inductive RegThrdTask
  | starting
  | started (flgReg : UInt64)
  | waiting
  | reading
  | loading
  | loaded (flgReg : UInt64)
  | exited
  deriving DecidableEq, Repr

/-- What both threads work on. A listening socket is named by how many there were before it, and
`listener` is `none` where `p_ec_listener->fd` is -1. The last two fields are not in the program: the
flag that the registration thread acted on last, and whether the listener could not be started or was
given up since then. -/
structure ListenerWorld where
  cfg : ServCfg
  flgRegChanged : Nat
  flgShutdown : Nat
  ctrl : CtrlTask
  reg : RegThrdTask
  listener : Option Nat
  created : Nat
  listening : Finset Nat
  watched : Finset Nat
  seen : UInt64
  failed : Bool

/-- What `epoll_wait` reports, as far as it is about the listener: one of the two eventfds, or a
connection that `accept` fails for with an error other than `EAGAIN`. -/
inductive ListenerEvent
  | regChanged
  | shutdown
  | acceptError
  deriving DecidableEq, Repr

namespace ListenerWorld

/-- `g_server_cfg->allow_registrations`. -/
def allowRegistrations (world : ListenerWorld) : UInt64 := world.cfg.int .allowRegistrations

/-- `server_start_tcp` and `epoll_ctl` with `EPOLL_CTL_ADD`, where the start of the listener succeeds
or does not. -/
def startListener (world : ListenerWorld) (succeeds : Bool) : ListenerWorld :=
  if succeeds then
    { world with
      listener := some world.created
      created := world.created + 1
      listening := insert world.created world.listening
      watched := insert world.created world.watched
      failed := false }
  else
    { world with listener := none, failed := true }

/-- `epoll_ctl` with `EPOLL_CTL_DEL`, `close`, and -1 for the descriptor. -/
def closeListener (world : ListenerWorld) : ListenerWorld :=
  match world.listener with
  | none => world
  | some fd =>
    { world with
      listener := none
      listening := world.listening.erase fd
      watched := world.watched.erase fd }

/-- `handle_flg_reg_changed` behind the load of the flag. -/
def switchListener (world : ListenerWorld) (flgReg : UInt64) (succeeds : Bool) : ListenerWorld :=
  if flgReg ≠ 0 ∧ world.listener = none then world.startListener succeeds
  else if flgReg = 0 ∧ world.listener ≠ none then world.closeListener
  else world

/-- A step of the registration thread, for the event that is reported where it waits for one. -/
def regStep (world : ListenerWorld) (event : ListenerEvent) (succeeds : Bool) : Option ListenerWorld :=
  match world.reg with
  | .starting => some { world with reg := .started world.allowRegistrations }
  | .started flgReg =>
    let started := if flgReg ≠ 0 then world.startListener succeeds else world
    some { started with reg := .waiting, seen := flgReg }
  | .waiting =>
    match event with
    | .regChanged => if 0 < world.flgRegChanged then some { world with reg := .reading } else none
    | .shutdown =>
      if 0 < world.flgShutdown then some { world.closeListener with reg := .exited } else none
    | .acceptError => some { world.closeListener with failed := true }
  | .reading => some { world with flgRegChanged := 0, reg := .loading }
  | .loading => some { world with reg := .loaded world.allowRegistrations }
  | .loaded flgReg =>
    some { world.switchListener flgReg succeeds with reg := .waiting, seen := flgReg }
  | .exited => none

/-- A command line of the control thread up to the write to an eventfd. -/
def command (world : ListenerWorld) (tokens : List Bytes) : ListenerWorld :=
  { world with
    cfg := ctrlProcessCmd world.cfg tokens
    ctrl :=
      match commandOf tokens with
      | some .registrations =>
        if (handleGenericFlagChange world.allowRegistrations tokens).isSome then .writingRegChanged
        else .idle
      | some .shutdownServer => .writingShutdown
      | _ => .idle }

/-- A step of the control thread: it reads a line where it waits for one, or it writes to the eventfd
that it is in front of. -/
def ctrlStep (world : ListenerWorld) (tokens : List Bytes) : Option ListenerWorld :=
  match world.ctrl with
  | .idle => some (world.command tokens)
  | .writingRegChanged => some { world with flgRegChanged := world.flgRegChanged + 1, ctrl := .idle }
  | .writingShutdown => some { world with flgShutdown := world.flgShutdown + 1, ctrl := .ended }
  | .ended => none

end ListenerWorld

/-- The threads when they start. -/
def listenerStart (cfg : ServCfg) : ListenerWorld where
  cfg := cfg
  flgRegChanged := 0
  flgShutdown := 0
  ctrl := .idle
  reg := .starting
  listener := none
  created := 0
  listening := ∅
  watched := ∅
  seen := 0
  failed := false

/-- A run of both threads. -/
inductive ListenerRun (cfg : ServCfg) : ListenerWorld → Prop
  | start : ListenerRun cfg (listenerStart cfg)
  | ctrl {world next} (tokens : List Bytes) (run : ListenerRun cfg world)
      (taken : world.ctrlStep tokens = some next) : ListenerRun cfg next
  | reg {world next} (event : ListenerEvent) (succeeds : Bool) (run : ListenerRun cfg world)
      (taken : world.regStep event succeeds = some next) : ListenerRun cfg next

/-! ### The flag and its bell -/

/-- What the registration thread does about the flag. -/
def RegThrdTask.subscriber : RegThrdTask → Doorbell.Task UInt64
  | .starting | .loading => .silenced
  | .started flgReg | .loaded flgReg => .read flgReg
  | .waiting | .exited => .rests
  | .reading => .hears

/-- The flag with the eventfd that announces it. -/
def ListenerWorld.bell (world : ListenerWorld) : Doorbell.State Unit UInt64 where
  value := world.allowRegistrations
  rings := world.flgRegChanged
  announcing := if world.ctrl = .writingRegChanged then {()} else ∅
  task := world.reg.subscriber
  seen := world.seen

section Bell

variable {cfg : ServCfg} {world next : ListenerWorld} {tokens : List Bytes} {event : ListenerEvent}
  {succeeds : Bool}

/-- What the registration thread does to its listener is not about the flag. -/
structure SameBell (world next : ListenerWorld) : Prop where
  cfg : next.cfg = world.cfg
  flgRegChanged : next.flgRegChanged = world.flgRegChanged
  ctrl : next.ctrl = world.ctrl
  reg : next.reg = world.reg
  seen : next.seen = world.seen

theorem SameBell.bell_eq (same : SameBell world next) : next.bell = world.bell := by
  rw [ListenerWorld.bell, ListenerWorld.bell, same.ctrl, same.flgRegChanged, same.reg, same.seen,
    ListenerWorld.allowRegistrations, ListenerWorld.allowRegistrations, same.cfg]

namespace ListenerWorld

theorem startListener_same (world : ListenerWorld) (succeeds : Bool) :
    SameBell world (world.startListener succeeds) := by
  rw [startListener]
  split <;> exact ⟨rfl, rfl, rfl, rfl, rfl⟩

theorem closeListener_same (world : ListenerWorld) : SameBell world world.closeListener := by
  rw [closeListener]
  split <;> exact ⟨rfl, rfl, rfl, rfl, rfl⟩

theorem switchListener_same (world : ListenerWorld) (flgReg : UInt64) (succeeds : Bool) :
    SameBell world (world.switchListener flgReg succeeds) := by
  rw [switchListener]
  split_ifs
  · exact world.startListener_same succeeds
  · exact world.closeListener_same
  · exact ⟨rfl, rfl, rfl, rfl, rfl⟩

end ListenerWorld

/-- The steps of the registration thread. -/
inductive RegTaken (world : ListenerWorld) : ListenerWorld → Prop
  | begins (here : world.reg = .starting) :
      RegTaken world { world with reg := .started world.allowRegistrations }
  | opens {flgReg} (succeeds : Bool) (here : world.reg = .started flgReg) (wanted : flgReg ≠ 0) :
      RegTaken world { world.startListener succeeds with reg := .waiting, seen := flgReg }
  | opensNot (here : world.reg = .started 0) :
      RegTaken world { world with reg := .waiting, seen := 0 }
  | wakes (here : world.reg = .waiting) (loud : 0 < world.flgRegChanged) :
      RegTaken world { world with reg := .reading }
  | exits (here : world.reg = .waiting) (told : 0 < world.flgShutdown) :
      RegTaken world { world.closeListener with reg := .exited }
  | givesUp (here : world.reg = .waiting) :
      RegTaken world { world.closeListener with failed := true }
  | reads (here : world.reg = .reading) :
      RegTaken world { world with flgRegChanged := 0, reg := .loading }
  | loads (here : world.reg = .loading) :
      RegTaken world { world with reg := .loaded world.allowRegistrations }
  | switches {flgReg} (succeeds : Bool) (here : world.reg = .loaded flgReg) :
      RegTaken world { world.switchListener flgReg succeeds with reg := .waiting, seen := flgReg }

theorem ListenerWorld.regStep_taken (taken : world.regStep event succeeds = some next) :
    RegTaken world next := by
  unfold ListenerWorld.regStep at taken
  split at taken
  · rename_i here
    obtain rfl := Option.some.inj taken
    exact .begins here
  · rename_i flgReg here
    obtain rfl := Option.some.inj taken
    by_cases wanted : flgReg = 0
    · subst wanted
      exact .opensNot here
    · simp only [if_pos wanted]
      exact .opens succeeds here wanted
  · rename_i here
    split at taken
    · split at taken
      · obtain rfl := Option.some.inj taken
        exact .wakes here ‹_›
      · cases taken
    · split at taken
      · obtain rfl := Option.some.inj taken
        exact .exits here ‹_›
      · cases taken
    · obtain rfl := Option.some.inj taken
      exact .givesUp here
  · rename_i here
    obtain rfl := Option.some.inj taken
    exact .reads here
  · rename_i here
    obtain rfl := Option.some.inj taken
    exact .loads here
  · rename_i here
    obtain rfl := Option.some.inj taken
    exact .switches succeeds here
  · cases taken

/-- A command that is not announced leaves the flag as it is. -/
theorem ListenerWorld.command_quiet
    (quiet : (world.command tokens).ctrl ≠ .writingRegChanged) :
    (world.command tokens).allowRegistrations = world.allowRegistrations := by
  have other {field : CfgIntField} (different : .allowRegistrations ≠ field) :
      (handleCtrlFlag field world.cfg tokens).int .allowRegistrations =
        world.cfg.int .allowRegistrations := by
    rw [handleCtrlFlag]
    split
    · rfl
    · exact ServCfg.storeInt_of_ne _ different _
  rw [command] at quiet
  rw [allowRegistrations, allowRegistrations, command]
  dsimp only
  rw [ctrlProcessCmd]
  split
  · rename_i named
    rw [handleCtrlRegistrations, handleCtrlFlag]
    cases refused : handleGenericFlagChange (world.cfg.int .allowRegistrations) tokens with
    | none => rfl
    | some arg =>
      refine absurd ?_ quiet
      simp [named, allowRegistrations, refused]
  · rw [handleCtrlFilesize]
    split
    · rfl
    · exact ServCfg.storeInt_of_ne _ (by decide) _
  · exact other (by decide)
  · exact other (by decide)
  · rfl

/-- A step of the control thread writes the flag, or rings, or leaves both alone. -/
theorem ListenerWorld.ctrlStep_bell (taken : world.ctrlStep tokens = some next) :
    Doorbell.Step world.bell next.bell ∨ next.bell = world.bell := by
  rw [ctrlStep] at taken
  split at taken
  · rename_i idle
    obtain rfl := Option.some.inj taken
    by_cases announces : (world.command tokens).ctrl = .writingRegChanged
    · refine .inl ?_
      have written : (world.command tokens).bell = { world.bell with
          value := (world.command tokens).allowRegistrations
          announcing := insert () world.bell.announcing } := by
        rw [bell, bell, if_pos announces, if_neg (by rw [idle]; decide), insert_empty_eq]
        rfl
      rw [written]
      exact .write () _
    · refine .inr ?_
      rw [bell, bell, command_quiet announces, if_neg announces, if_neg (by rw [idle]; decide)]
      rfl
  · rename_i writing
    obtain rfl := Option.some.inj taken
    have wrote : () ∈ world.bell.announcing := by
      rw [bell, if_pos writing]
      rfl
    have rung : bell { world with flgRegChanged := world.flgRegChanged + 1, ctrl := .idle } =
        { world.bell with
          rings := world.bell.rings + 1, announcing := world.bell.announcing \ {()} } := by
      rw [bell, bell, if_pos writing, sdiff_self]
      rfl
    rw [rung]
    exact .inl (.ring wrote)
  · rename_i writing
    obtain rfl := Option.some.inj taken
    refine .inr ?_
    have notRegChanged : world.ctrl ≠ .writingRegChanged := by
      rw [writing]
      decide
    rw [bell, bell, if_neg notRegChanged]
    rfl
  · cases taken

/-- What the subscriber does at its place. -/
theorem ListenerWorld.serve_eq {task : RegThrdTask} (here : world.reg = task) :
    world.bell.serve = { world.bell with task := task.subscriber }.serve := by
  subst here
  rfl

/-- A step of the registration thread is one of the subscriber, or is not about the flag. -/
theorem RegTaken.bell (taken : RegTaken world next) (runs : next.reg ≠ .exited) :
    world.bell.serve = some next.bell ∨
      next.bell = world.bell ∧ world.reg = .waiting ∧ next.reg = .waiting := by
  have acted {flgReg : UInt64} {switched : ListenerWorld} (same : SameBell world switched) :
      some (ListenerWorld.bell { switched with reg := .waiting, seen := flgReg }) =
        some { world.bell with task := .rests, seen := flgReg } := by
    rw [← same.bell_eq]
    rfl
  cases taken with
  | begins here => exact .inl (ListenerWorld.serve_eq here)
  | opens succeeds here wanted =>
    exact .inl ((ListenerWorld.serve_eq here).trans
      (acted (world.startListener_same succeeds)).symm)
  | opensNot here => exact .inl (ListenerWorld.serve_eq here)
  | wakes here loud => exact .inl ((ListenerWorld.serve_eq here).trans (if_pos loud))
  | exits => exact absurd rfl runs
  | givesUp here =>
    have same := world.closeListener_same
    exact .inr ⟨same.bell_eq, here, same.reg.trans here⟩
  | reads here => exact .inl (ListenerWorld.serve_eq here)
  | loads here => exact .inl (ListenerWorld.serve_eq here)
  | @switches flgReg succeeds here =>
    exact .inl ((ListenerWorld.serve_eq here).trans
      (acted (world.switchListener_same flgReg succeeds)).symm)

end Bell

/-! ### The listener -/

/-- The listening sockets are the one of the listener, and it is watched. -/
structure OneListener (world : ListenerWorld) : Prop where
  listening : world.listening = world.listener.toFinset
  watched : world.watched = world.listener.toFinset

/-- What every run keeps. -/
structure ListenerInvariant (world : ListenerWorld) : Prop where
  heeded : world.reg ≠ .exited → world.bell.Heeded
  one : OneListener world
  acted : world.reg ≠ .exited → (world.listener ≠ none → world.seen ≠ 0) ∧
    (world.seen ≠ 0 → world.failed = false → world.listener ≠ none)
  beginning : (world.reg = .starting ∨ ∃ flgReg, world.reg = .started flgReg) →
    world.listener = none
  exited : world.reg = .exited → world.listener = none

section Listener

variable {cfg : ServCfg} {world next : ListenerWorld} {tokens : List Bytes} {succeeds : Bool}

theorem OneListener.start (one : OneListener world) (closed : world.listener = none)
    (succeeds : Bool) : OneListener (world.startListener succeeds) ∧
      ((world.startListener succeeds).failed = false →
        (world.startListener succeeds).listener ≠ none) := by
  obtain ⟨listening, watched⟩ := one
  rw [closed, Option.toFinset_none] at listening watched
  rw [ListenerWorld.startListener]
  split
  · refine ⟨⟨?_, ?_⟩, fun _ => Option.some_ne_none _⟩
    · simp [listening]
    · simp [watched]
  · refine ⟨⟨listening, watched⟩, fun none => (by cases none)⟩

theorem OneListener.close (one : OneListener world) :
    OneListener world.closeListener ∧ world.closeListener.listener = none := by
  obtain ⟨listening, watched⟩ := one
  rw [ListenerWorld.closeListener]
  split
  · rename_i closed
    exact ⟨⟨listening, watched⟩, closed⟩
  · rename_i fd isOpen
    rw [isOpen, Option.toFinset_some] at listening watched
    refine ⟨⟨?_, ?_⟩, rfl⟩
    · simp [listening]
    · simp [watched]

/-- Behind the switch the listener is as the flag says, unless it cannot be started. -/
theorem OneListener.switch (one : OneListener world) (flgReg : UInt64) (succeeds : Bool) :
    OneListener (world.switchListener flgReg succeeds) ∧
      ((world.switchListener flgReg succeeds).listener ≠ none → flgReg ≠ 0) ∧
      (flgReg ≠ 0 → (world.switchListener flgReg succeeds).failed = false →
        (world.switchListener flgReg succeeds).listener ≠ none) := by
  rw [ListenerWorld.switchListener]
  split_ifs with opens closes
  · obtain ⟨started, opened⟩ := one.start opens.2 succeeds
    exact ⟨started, fun _ => opens.1, fun _ => opened⟩
  · obtain ⟨closed, none⟩ := one.close
    exact ⟨closed, fun isOpen => absurd none isOpen, fun wanted => absurd closes.1 wanted⟩
  · refine ⟨one, fun isOpen unwanted => closes ⟨unwanted, isOpen⟩, fun wanted _ isClosed => ?_⟩
    exact opens ⟨wanted, isClosed⟩

theorem listenerStart_invariant (cfg : ServCfg) : ListenerInvariant (listenerStart cfg) :=
  ⟨fun _ => .inr (.inr trivial), ⟨rfl, rfl⟩, fun _ => ⟨fun none => absurd rfl none,
    fun none => absurd rfl none⟩, fun _ => rfl, fun _ => rfl⟩

/-- The control thread does not touch the listener. -/
theorem ListenerInvariant.ctrl (invariant : ListenerInvariant world)
    (taken : world.ctrlStep tokens = some next) : ListenerInvariant next := by
  obtain ⟨reg, listener, listening, watched, seen, failed⟩ : next.reg = world.reg ∧
      next.listener = world.listener ∧ next.listening = world.listening ∧
      next.watched = world.watched ∧ next.seen = world.seen ∧ next.failed = world.failed := by
    have bell := taken
    rw [ListenerWorld.ctrlStep] at bell
    split at bell
    · obtain rfl := Option.some.inj bell
      exact ⟨rfl, rfl, rfl, rfl, rfl, rfl⟩
    · obtain rfl := Option.some.inj bell
      exact ⟨rfl, rfl, rfl, rfl, rfl, rfl⟩
    · obtain rfl := Option.some.inj bell
      exact ⟨rfl, rfl, rfl, rfl, rfl, rfl⟩
    · cases bell
  refine ⟨fun runs => ?_, ⟨?_, ?_⟩, ?_, ?_, ?_⟩
  · rw [reg] at runs
    rcases ListenerWorld.ctrlStep_bell taken with step | same
    · exact step.heeded (invariant.heeded runs)
    · rw [same]
      exact invariant.heeded runs
  · rw [listening, listener]
    exact invariant.one.listening
  · rw [watched, listener]
    exact invariant.one.watched
  · rw [reg, listener, seen, failed]
    exact invariant.acted
  · rw [reg, listener]
    exact invariant.beginning
  · rw [reg, listener]
    exact invariant.exited

theorem ListenerInvariant.reg (invariant : ListenerInvariant world) (taken : RegTaken world next) :
    ListenerInvariant next := by
  have heeded : next.reg ≠ .exited → next.bell.Heeded := by
    intro runs
    have ran : world.reg ≠ .exited := by
      intro exited
      cases taken <;> simp_all
    rcases taken.bell runs with served | ⟨same, -⟩
    · exact (Doorbell.State.serve_step served).1.heeded (invariant.heeded ran)
    · rw [same]
      exact invariant.heeded ran
  have still {reg : RegThrdTask} {flgRegChanged : Nat} {seen : UInt64} :
      OneListener { world with reg, flgRegChanged, seen } :=
    ⟨invariant.one.listening, invariant.one.watched⟩
  cases taken with
  | begins here =>
    exact ⟨heeded, still, fun _ => invariant.acted (by simp [here]),
      fun _ => invariant.beginning (.inl here), fun none => (by cases none)⟩
  | @opens flgReg succeeds here wanted =>
    have closed := invariant.beginning (.inr ⟨flgReg, here⟩)
    obtain ⟨one, opened⟩ := invariant.one.start closed succeeds
    exact ⟨heeded, ⟨one.listening, one.watched⟩, fun _ => ⟨fun _ => wanted, fun _ => opened⟩,
      fun none => (by simp at none), fun none => (by cases none)⟩
  | opensNot here =>
    have closed := invariant.beginning (.inr ⟨0, here⟩)
    exact ⟨heeded, still, fun _ => ⟨fun isOpen => absurd closed isOpen,
      fun none => absurd rfl none⟩, fun none => (by simp at none), fun none => (by cases none)⟩
  | wakes here loud =>
    exact ⟨heeded, still, fun _ => invariant.acted (by simp [here]),
      fun none => (by simp at none), fun none => (by cases none)⟩
  | exits here =>
    obtain ⟨one, closed⟩ := invariant.one.close
    exact ⟨heeded, ⟨one.listening, one.watched⟩, fun none => absurd rfl none,
      fun _ => closed, fun _ => closed⟩
  | givesUp here =>
    obtain ⟨one, closed⟩ := invariant.one.close
    have same := world.closeListener_same
    exact ⟨heeded, ⟨one.listening, one.watched⟩, fun _ => ⟨fun isOpen => absurd closed isOpen,
      fun _ none => (by cases none)⟩, fun _ => closed, fun _ => closed⟩
  | reads here =>
    exact ⟨heeded, still, fun _ => invariant.acted (by simp [here]),
      fun none => (by simp at none), fun none => (by cases none)⟩
  | loads here =>
    exact ⟨heeded, still, fun _ => invariant.acted (by simp [here]),
      fun none => (by simp at none), fun none => (by cases none)⟩
  | @switches flgReg succeeds here =>
    obtain ⟨one, follows⟩ := invariant.one.switch flgReg succeeds
    exact ⟨heeded, ⟨one.listening, one.watched⟩, fun _ => follows, fun none => (by simp at none),
      fun none => (by cases none)⟩

theorem ListenerRun.invariant (run : ListenerRun cfg world) : ListenerInvariant world := by
  induction run with
  | start => exact listenerStart_invariant cfg
  | ctrl tokens _ taken inductionHypothesis => exact inductionHypothesis.ctrl taken
  | reg event succeeds _ taken inductionHypothesis =>
    exact inductionHypothesis.reg (ListenerWorld.regStep_taken taken)

/-- The registration thread takes some steps, with whether it can start a listener in each of
them, and hears of the flag where it waits. -/
def ListenerWorld.regTurns (world : ListenerWorld) : List Bool → Option ListenerWorld
  | [] => some world
  | succeeds :: rest => do
    let next ← world.regStep .regChanged succeeds
    next.regTurns rest

/-- A step of the registration thread that is not at rest brings it nearer to rest. -/
theorem ListenerWorld.regStep_nearer (runs : world.reg ≠ .exited) (far : world.bell.distance ≠ 0)
    (succeeds : Bool) : ∃ next, world.regStep .regChanged succeeds = some next ∧
      next.reg ≠ .exited ∧ next.bell.distance + 1 = world.bell.distance := by
  obtain ⟨next, taken, ran, wakes⟩ : ∃ next, world.regStep .regChanged succeeds = some next ∧
      next.reg ≠ .exited ∧ (world.reg = .waiting → next.reg ≠ .waiting) := by
    unfold ListenerWorld.regStep
    split
    · exact ⟨_, rfl, by simp, by simp⟩
    · rename_i here
      exact ⟨_, rfl, by simp, by simp [here]⟩
    · rename_i here
      have loud : 0 < world.flgRegChanged := by
        by_contra silent
        refine far ?_
        rw [Doorbell.State.distance, ListenerWorld.bell, here]
        exact if_neg silent
      exact ⟨_, if_pos loud, by simp, by simp⟩
    · exact ⟨_, rfl, by simp, by simp⟩
    · exact ⟨_, rfl, by simp, by simp⟩
    · rename_i here
      exact ⟨_, rfl, by simp, by simp [here]⟩
    · exact absurd ‹_› runs
  refine ⟨next, taken, ran, ?_⟩
  rcases (regStep_taken taken).bell ran with served | ⟨-, waits, stillWaits⟩
  · exact (Doorbell.State.serve_step served).2.2.2
  · exact absurd stillWaits (wakes waits)

/-- So it comes to rest. -/
theorem ListenerWorld.regTurns_rest {outcomes : List Bool} (runs : world.reg ≠ .exited)
    (length : outcomes.length = world.bell.distance) : ∃ later,
      world.regTurns outcomes = some later ∧ later.reg = .waiting ∧ later.flgRegChanged = 0 := by
  induction outcomes generalizing world with
  | nil =>
    obtain ⟨resting, silent⟩ := Doorbell.State.distance_eq_zero length.symm
    refine ⟨world, rfl, ?_, silent⟩
    have rests : world.reg.subscriber = .rests := resting
    cases here : world.reg with
    | waiting => rfl
    | exited => exact absurd here runs
    | _ => rw [here] at rests; cases rests
  | cons succeeds rest inductionHypothesis =>
    have far : world.bell.distance ≠ 0 := by
      rw [← length]
      exact Nat.succ_ne_zero _
    obtain ⟨next, taken, ran, nearer⟩ := world.regStep_nearer runs far succeeds
    obtain ⟨later, turns, rests⟩ := inductionHypothesis ran (by simp at length; omega)
    refine ⟨later, ?_, rests⟩
    rw [ListenerWorld.regTurns, taken]
    exact turns

/-- **The listener for registrations follows the flag.** In every run of the control thread and the
registration thread, only the listener of the registration thread listens on the port. Where that
thread waits, its eventfd is read and no command is about to write to it, the listener is open only
if registrations are allowed, and it is open if they are, unless it could not be started or failed.
In six steps of its own at most, of those in which it hears of the flag, the registration thread
comes to wait with its eventfd read. After its end nobody listens. -/
theorem registration_listener_follows_flag (run : ListenerRun cfg world) :
    world.listening = world.listener.toFinset ∧ world.watched = world.listener.toFinset ∧
    (world.reg = .waiting → world.flgRegChanged = 0 → world.ctrl ≠ .writingRegChanged →
      (world.listener ≠ none → world.allowRegistrations ≠ 0) ∧
      (world.allowRegistrations ≠ 0 → world.failed = false → world.listener ≠ none)) ∧
    (world.reg ≠ .exited → ∃ turns ≤ 6, ∀ outcomes : List Bool, outcomes.length = turns →
      ∃ later, world.regTurns outcomes = some later ∧ later.reg = .waiting ∧
        later.flgRegChanged = 0) ∧
    (world.reg = .exited → world.listening = ∅) := by
  have invariant := run.invariant
  refine ⟨invariant.one.listening, invariant.one.watched, fun waits silent idle => ?_, fun runs => ?_,
    fun exited => ?_⟩
  · have runs : world.reg ≠ .exited := by
      rw [waits]
      decide
    have settled : world.seen = world.allowRegistrations :=
      (invariant.heeded runs).settled silent (if_neg idle) (congrArg RegThrdTask.subscriber waits)
    rw [← settled]
    exact invariant.acted runs
  · exact ⟨world.bell.distance, world.bell.distance_le, fun outcomes length =>
      ListenerWorld.regTurns_rest runs length⟩
  · rw [invariant.one.listening, invariant.exited exited]
    rfl

/-- Registrations are forbidden while the registration thread starts its listener. -/
theorem registration_listener_follows_flag_closed : ∃ world,
    ListenerRun getDefaultCfg world ∧ world.created = 1 ∧ world.listening = ∅ := by
  have starting : ListenerRun getDefaultCfg (listenerStart getDefaultCfg) := .start
  have begun := starting.reg .regChanged true rfl
  have stored := begun.ctrl [ofLiteral "registrations", ofLiteral "0"] rfl
  have opened := stored.reg .regChanged true rfl
  have announced := opened.ctrl [] rfl
  have reading := announced.reg .regChanged true rfl
  have loading := reading.reg .regChanged true rfl
  have loaded := loading.reg .regChanged true rfl
  have closed := loaded.reg .regChanged true rfl
  obtain ⟨listening, -, follows, -⟩ := registration_listener_follows_flag closed
  have noListener := not_not.mp fun isOpen => (follows rfl rfl (by decide)).1 isOpen rfl
  exact ⟨_, closed, rfl, listening.trans (congrArg Option.toFinset noListener)⟩

end Listener

end Lwmsg
