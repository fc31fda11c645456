/-
This file runs the workers. A schedule says which worker takes which step, and whatever
can be executed of it is a run of the workers. The links of the table stay as they are
here, as they do where each bucket holds at most one node.
-/

import Lwmsg.Worker

namespace Lwmsg

open Bytes Pointers

/-- What one worker does next, or what a peer sends. -/
inductive WorkerEvent
  | arrives (cl : Addr) (connection : Conn)
  | newConnection (thrd : Nat) (peerName : Bytes) (connection : Conn) (outcome : AcceptOutcome)
    (now : Timespec)
  | accepting (thrd : Nat) (cl : Addr) (outcome : AcceptOutcome) (now : Timespec)
  | authentication (thrd : Nat) (cl : Addr) (fns : AuthFns)
  | add (thrd : Nat)
  | activate (thrd : Nat)
  | timeout (thrd : Nat) (now : Timespec)
  | hangup (thrd : Nat) (cl : Addr)
  | validate (thrd : Nat) (cl : Addr)
  | forward (thrd : Nat)
  | inbound (thrd : Nat) (allowFileTransfers : Bool) (maxFilesizeB : Nat) (userList : Bytes)
  | enqueue (thrd : Nat)
  | outbound (thrd : Nat) (cl : Addr)
  | resume (thrd : Nat) (cl : Addr)
  | dequeue (thrd : Nat)
  | flush (thrd : Nat)
  | sweep (thrd : Nat)
  | sweepNext (thrd : Nat)
  | sweepEnd (thrd : Nat)

namespace Server

/-- The worker is idle. -/
def isIdle (server : Server) (thrd : Nat) : Bool :=
  match (server.workers thrd).task with
  | .idle => true
  | _ => false

/-- An idle worker may call a handler for a client in one of the states. -/
def mayCall (server : Server) (thrd : Nat) (cl : Addr) (states : List ClientState) : Bool :=
  server.isIdle thrd && (server.clients cl).any fun client =>
    client.ownerThrdId == thrd && states.contains client.stdcl.clState

/-- The states of a client that has or had a session. -/
def sessionStates : List ClientState := [.authenticated, .disconnected]

/-- One step, if it may be taken. -/
def exec (server : Server) : WorkerEvent → Option Server
  | .arrives cl connection => do
    let client ← server.clients cl
    return server.setStdcl cl { client.stdcl with connection }
  | .newConnection thrd peerName connection outcome now =>
    if server.isIdle thrd then server.handleNewConnection thrd peerName connection outcome now
    else none
  | .accepting thrd cl outcome now =>
    if server.mayCall thrd cl [.accepting] then server.handleAccepting thrd cl outcome now else none
  | .authentication thrd cl fns =>
    if server.mayCall thrd cl [.accepted] then server.handleAuthentication thrd cl fns else none
  | .add thrd =>
    match (server.workers thrd).task with
    | .adding cl => server.handleAdd thrd cl server.next
    | _ => none
  | .activate thrd =>
    match (server.workers thrd).task with
    | .activating cl => server.handleActivate thrd cl
    | _ => none
  | .timeout thrd now => if server.isIdle thrd then server.handleClthTimeout thrd now else none
  | .hangup thrd cl =>
    if server.mayCall thrd cl (.init :: .accepting :: .accepted :: sessionStates) then
      server.cleanup thrd cl
    else none
  | .validate thrd cl =>
    if server.mayCall thrd cl sessionStates then
      some (server.setTask thrd (.validating cl server.clientTable))
    else none
  | .forward thrd =>
    match (server.workers thrd).task with
    | .validating cl validationTable =>
      some (server.setTask thrd (.forwarding cl validationTable server.clientTable))
    | _ => none
  | .inbound thrd allowFileTransfers maxFilesizeB userList =>
    match (server.workers thrd).task with
    | .forwarding cl validationTable forwardTable =>
      server.handleInbound thrd cl
        ⟨validationTable, forwardTable, allowFileTransfers, maxFilesizeB, userList⟩
    | _ => none
  | .enqueue thrd =>
    match (server.workers thrd).task with
    | .enqueuing cl rcpt msg => some (server.handleEnqueue thrd cl rcpt msg)
    | _ => none
  | .outbound thrd cl =>
    if server.mayCall thrd cl sessionStates then server.handleOutbound cl else none
  | .resume thrd cl =>
    if server.mayCall thrd cl sessionStates then
      some (server.setTask thrd (.resuming cl server.clientTable))
    else none
  | .dequeue thrd =>
    match (server.workers thrd).task with
    | .resuming cl resumeTable => server.handleDequeue thrd cl resumeTable
    | _ => none
  | .flush thrd =>
    match (server.workers thrd).task with
    | .flushing cl resumeTable dequeueTable waiting =>
      server.handleQueuedMessages thrd cl resumeTable dequeueTable waiting
    | _ => none
  | .sweep thrd =>
    if server.isIdle thrd then
      some (server.setTask thrd (.sweeping (server.workers thrd).dconnClients))
    else none
  | .sweepNext thrd =>
    match (server.workers thrd).task with
    | .sweeping (cl :: rest) => server.handleSweep thrd cl rest server.next
    | _ => none
  | .sweepEnd thrd =>
    match (server.workers thrd).task with
    | .sweeping [] => some (server.setWorker thrd fun worker =>
        { worker with dconnClients := [], task := .idle })
    | _ => none

/-- A schedule, as far as all its steps may be taken and are of some kind. -/
def execAll (allowed : Server → Server → Bool) : List WorkerEvent → Server → Option Server
  | [], server => some server
  | event :: schedule, server => do
    let next ← server.exec event
    if allowed server next then execAll allowed schedule next else none

end Server

section Runs

variable {server next later : Server} {thrd : Nat} {cl : Addr}

theorem Server.isIdle_iff : server.isIdle thrd = true ↔ (server.workers thrd).task = .idle := by
  rw [Server.isIdle]
  split
  · rename_i idle
    simp [idle]
  · rename_i busy
    exact iff_of_false (by simp) busy

theorem Server.mayCall_ready {states : List ClientState}
    (may : server.mayCall thrd cl states = true) :
    ∃ client, server.Ready thrd cl client ∧ client.stdcl.clState ∈ states := by
  obtain ⟨idle, found⟩ := Bool.and_eq_true_iff.mp may
  cases live : server.clients cl with
  | none => simp [live] at found
  | some client =>
    rw [live] at found
    obtain ⟨owner, state⟩ := Bool.and_eq_true_iff.mp found
    exact ⟨client, ⟨Server.isIdle_iff.mp idle, live, beq_iff_eq.mp owner⟩,
      List.contains_iff_mem.mp state⟩

theorem StdClient.hasSession_of_mem {stdcl : StdClient}
    (state : stdcl.clState ∈ Server.sessionStates) : stdcl.HasSession := by
  simpa [Server.sessionStates, StdClient.HasSession] using state

theorem Server.tableWrites_refl (server : Server) (cl : Addr) :
    server.TableWrites cl server.next := fun _ _ _ => rfl

/-- What was executed is a step. -/
theorem Server.exec_step {event : WorkerEvent} (executed : server.exec event = some next) :
    ServerStep server next := by
  cases event with
  | arrives cl connection =>
    obtain ⟨client, live, rest⟩ := Option.bind_eq_some_iff.mp executed
    obtain rfl := Option.some.inj rest
    exact .arrives connection live
  | newConnection thrd peerName connection outcome now =>
    obtain ⟨idle, call⟩ := Option.ite_none_right_eq_some.mp executed
    exact .newConnection thrd peerName connection outcome now (isIdle_iff.mp idle) call
  | accepting thrd cl outcome now =>
    obtain ⟨may, call⟩ := Option.ite_none_right_eq_some.mp executed
    obtain ⟨client, ready, state⟩ := mayCall_ready may
    exact .accepting outcome now ready (List.mem_singleton.mp state) call
  | authentication thrd cl fns =>
    obtain ⟨may, call⟩ := Option.ite_none_right_eq_some.mp executed
    obtain ⟨client, ready, state⟩ := mayCall_ready may
    exact .authentication fns ready (List.mem_singleton.mp state) call
  | timeout thrd now =>
    obtain ⟨idle, call⟩ := Option.ite_none_right_eq_some.mp executed
    exact .timeout thrd now (isIdle_iff.mp idle) call
  | hangup thrd cl =>
    obtain ⟨may, call⟩ := Option.ite_none_right_eq_some.mp executed
    obtain ⟨client, ready, _⟩ := mayCall_ready may
    exact .hangup ready call
  | validate thrd cl =>
    obtain ⟨may, call⟩ := Option.ite_none_right_eq_some.mp executed
    obtain ⟨client, ready, state⟩ := mayCall_ready may
    obtain rfl := Option.some.inj call
    exact .validate ready (StdClient.hasSession_of_mem state)
  | outbound thrd cl =>
    obtain ⟨may, call⟩ := Option.ite_none_right_eq_some.mp executed
    obtain ⟨client, ready, state⟩ := mayCall_ready may
    exact .outbound ready (StdClient.hasSession_of_mem state) call
  | resume thrd cl =>
    obtain ⟨may, call⟩ := Option.ite_none_right_eq_some.mp executed
    obtain ⟨client, ready, state⟩ := mayCall_ready may
    obtain rfl := Option.some.inj call
    exact .resume ready (StdClient.hasSession_of_mem state)
  | sweep thrd =>
    obtain ⟨idle, call⟩ := Option.ite_none_right_eq_some.mp executed
    obtain rfl := Option.some.inj call
    exact .sweep thrd (isIdle_iff.mp idle)
  | add thrd =>
    rw [exec] at executed
    split at executed
    · rename_i cl task
      exact .add task (server.tableWrites_refl cl) executed
    · cases executed
  | activate thrd =>
    rw [exec] at executed
    split at executed
    · rename_i task
      exact .activate task executed
    · cases executed
  | forward thrd =>
    rw [exec] at executed
    split at executed
    · rename_i task
      obtain rfl := Option.some.inj executed
      exact .forward task
    · cases executed
  | inbound thrd =>
    rw [exec] at executed
    split at executed
    · rename_i task
      exact .inbound _ task executed
    · cases executed
  | enqueue thrd =>
    rw [exec] at executed
    split at executed
    · rename_i task
      obtain rfl := Option.some.inj executed
      exact .enqueue task
    · cases executed
  | dequeue thrd =>
    rw [exec] at executed
    split at executed
    · rename_i task
      exact .dequeue task executed
    · cases executed
  | flush thrd =>
    rw [exec] at executed
    split at executed
    · rename_i task
      exact .flush task executed
    · cases executed
  | sweepNext thrd =>
    rw [exec] at executed
    split at executed
    · rename_i cl rest task
      exact .sweepNext task (server.tableWrites_refl cl) executed
    · cases executed
  | sweepEnd thrd =>
    rw [exec] at executed
    split at executed
    · rename_i task
      obtain rfl := Option.some.inj executed
      exact .sweepEnd task
    · cases executed

/-- A schedule that was executed is a run. -/
theorem WorkersRun.execAll {Allowed : Server → Server → Prop} {allowed : Server → Server → Bool}
    {start : Server} {schedule : List WorkerEvent} (run : WorkersRun Allowed start server)
    (kind : ∀ server next, allowed server next = true → Allowed server next)
    (executed : server.execAll allowed schedule = some later) : WorkersRun Allowed start later := by
  induction schedule generalizing server with
  | nil =>
    obtain rfl := Option.some.inj executed
    exact run
  | cons event schedule inductionHypothesis =>
    obtain ⟨next, first, rest⟩ := Option.bind_eq_some_iff.mp executed
    obtain ⟨fits, rest⟩ := Option.ite_none_right_eq_some.mp rest
    exact inductionHypothesis (run.step (Server.exec_step first) (kind server next fits)) rest

end Runs

/-! ### Schedules -/

/-- A client connects to a worker and logs in. -/
def loginOf (thrd : Nat) (cl : Addr) (name : String) : List WorkerEvent :=
  [.newConnection thrd [127, 0, 0, 1]
      (requestingClient (strncpy unamesize (ofLiteral name))).connection .done ⟨0, 0⟩,
    .authentication thrd cl openServer.fns, .add thrd, .activate thrd]

/-- A client sends a text to somebody, and its worker enqueues it. -/
def textOf (thrd : Nat) (cl : Addr) (rcptName text : String) : List WorkerEvent :=
  let chars := ofLiteral text
  let header := lwmpHdr MsgType.msg.code (strncpy unamesize (ofLiteral rcptName))
    (List.replicate optdataLen 0) chars.length
  [.arrives cl { (sendingClient (header ++ chars)).connection with
      recvEvents := [.upTo 4096, .upTo 4096] },
    .validate thrd cl, .forward thrd, .inbound thrd true 1000 [], .enqueue thrd]

end Lwmsg
