/-
This file models the workers of `server/worker.c` as far as they move clients between
their containers: the list of those that did not authenticate yet, the heap of their
deadlines, the table that all workers share, and the array of those that disconnected.

The workers run at the same time. A handler touches the containers of its own worker,
which no other worker sees, so it is one step, but for the places where it works on
what all workers share: there it stops, and the others go on, before and after each
change of the table, between the lookups of a call and what it does about them, and
between the lookup of a sender and the flush of the messages it left.

An address is never given to two clients, so a pointer to a client that was freed is
one to nothing. A client that was removed from the table is freed at once here: another
worker that still holds a reference to it can only enqueue a message that nobody reads.
-/

import Lwmsg.Authentication
import Lwmsg.CltimerheapSlots
import Lwmsg.IntrusiveList

namespace Lwmsg

open Bytes Pointers

/-! ### Workers and their clients -/

/-- Where a worker stands. It is idle between two handlers. -/
inductive WorkerTask
  | idle
  /-- `wt_handle_authentication`, in front of `htable_add`. -/
  | adding (cl : Addr)
  /-- The same, behind a successful `htable_add`. -/
  | activating (cl : Addr)
  /-- `wt_handle_inbound_data`, behind the lookup of the header validation. -/
  | validating (cl : Addr) (validationTable : ClientTable)
  /-- The same, behind the lookup of the recipient. -/
  | forwarding (cl : Addr) (validationTable forwardTable : ClientTable)
  /-- The same, in front of `mpscq_enqueue`. -/
  | enqueuing (cl rcpt : Addr) (msg : MpscMsgNode)
  /-- `wt_handle_queued_messages`, behind the lookup for the message it goes on with. -/
  | resuming (cl : Addr) (resumeTable : ClientTable)
  /-- The same, behind the lookup for the message it dequeued, which is the first of those that waited
  then. The queue of the client holds only what was enqueued since. -/
  | flushing (cl : Addr) (resumeTable dequeueTable : ClientTable) (waiting : List MpscMsgNode)
  /-- `node_arr_sweep`, with the rest of the array. -/
  | sweeping (rest : List Addr)

/-- The task is a handler called for the client. -/
def WorkerTask.Concerns (task : WorkerTask) (cl : Addr) : Prop :=
  match task with
  | .idle | .sweeping _ => False
  | .adding addr | .activating addr | .validating addr _ | .forwarding addr _ _
  | .enqueuing addr _ _ | .resuming addr _ | .flushing addr _ _ _ => addr = cl

/-- The `stdcl_containers` of a worker, without the table, and where the worker stands. The fields of
a client that the heap uses are kept with the heap. -/
structure Worker where
  preauthList : Option Addr
  clth : TimerWorld
  dconnClients : List Addr
  task : WorkerTask

/-- A `std_client` with its worker. -/
structure OwnedClient where
  ownerThrdId : Nat
  stdcl : StdClient

/-- What all workers work on. The clients are those that were not freed, `next` is the link of each
table node, and `allocated` is the next new address. The last two fields record what the workers
did: the answers about authentications, and who enqueued which message for whom. -/
structure Server where
  clients : Addr → Option OwnedClient
  next : Links
  allocated : Addr
  workers : Nat → Worker
  table : Bytes → Option Addr
  answers : List (Addr × AuthReqRespCode)
  enqueued : List (Addr × Addr × MpscMsgNode)

/-- The server when its workers start. -/
def serverStart : Server where
  clients := fun _ => none
  next := fun _ => none
  allocated := 0
  workers := fun _ => {
    preauthList := none
    clth := ⟨fun _ => ⟨invalThInd, ⟨0, 0⟩⟩, emptyTimerheap defClthSize⟩
    dconnClients := []
    task := .idle }
  table := fun _ => none
  answers := []
  enqueued := []

/-- What `accept_fn` answers about a handshake. -/
inductive AcceptOutcome
  | done
  | error
  | pending
  deriving DecidableEq, Repr

/-- `CLTH_AUTH_MAXPERM_TIME`. -/
def clthAuthMaxpermTime : Int := 4

namespace Server

/-- What a lookup in the table finds now. -/
def clientTable (server : Server) : ClientTable := fun key => do
  let cl ← server.table key
  let client ← server.clients cl
  return (cl, client.stdcl.clState)

def setWorker (server : Server) (thrd : Nat) (change : Worker → Worker) : Server :=
  { server with workers := Function.update server.workers thrd (change (server.workers thrd)) }

def setTask (server : Server) (thrd : Nat) (task : WorkerTask) : Server :=
  server.setWorker thrd fun worker => { worker with task }

def setClth (server : Server) (thrd : Nat) (clth : TimerWorld) : Server :=
  server.setWorker thrd fun worker => { worker with clth }

def setStdcl (server : Server) (cl : Addr) (stdcl : StdClient) : Server :=
  { server with
    clients := Function.update server.clients cl
      ((server.clients cl).map fun client => { client with stdcl }) }

/-- `free(stdc)`. -/
def free (server : Server) (cl : Addr) : Server :=
  { server with clients := Function.update server.clients cl none }

/-- `auth_send_resp`, for a client whose state is `stdcl` up to what it is sent. -/
def answer (server : Server) (cl : Addr) (stdcl : StdClient) (respCode : AuthReqRespCode) : Server :=
  { server.setStdcl cl (authSendResp stdcl respCode) with
    answers := server.answers ++ [(cl, respCode)] }

/-- `cl_timerheap_remove(cont->clth, &stdc->cl)`. -/
def timerheapRemove (server : Server) (thrd : Nat) (cl : Addr) : Option Server := do
  let clth ← clTimerheapRemove (server.workers thrd).clth cl
  return server.setClth thrd clth

/-- `cl_timerheap_add(cont->clth, &stdc->cl, CLTH_AUTH_MAXPERM_TIME)`. Nothing looks at what it
answers. -/
def timerheapAdd (server : Server) (thrd : Nat) (cl : Addr) (now : Timespec) : Option Server := do
  let (_, clth) ← clTimerheapAdd (server.workers thrd).clth cl now clthAuthMaxpermTime
  return server.setClth thrd clth

/-- `intrusive_list_add(cont->preauth_list, &stdc->nd)`. -/
def preauthAdd (server : Server) (thrd : Nat) (cl : Addr) : Server :=
  let (preauthList, next) := intrusiveListAdd (server.workers thrd).preauthList server.next cl
  ({ server with next }).setWorker thrd fun worker => { worker with preauthList }

/-- `intrusive_list_remove(cont->preauth_list, &stdc->nd)`. A list is shorter than the number of
addresses given so far. -/
def preauthRemove (server : Server) (thrd : Nat) (cl : Addr) : Option Server := do
  let (preauthList, next) ←
    intrusiveListRemove (server.allocated + 1) (server.workers thrd).preauthList server.next cl
  return ({ server with next }).setWorker thrd fun worker => { worker with preauthList }

/-- `node_arr_add(cont->dconn_clients, client_node)`. -/
def dconnAdd (server : Server) (thrd : Nat) (cl : Addr) : Server :=
  server.setWorker thrd fun worker => { worker with dconnClients := worker.dconnClients ++ [cl] }

/-! ### The handlers -/

/-- `cleanup_std_client`. -/
def cleanup (server : Server) (thrd : Nat) (cl : Addr) : Option Server := do
  let client ← server.clients cl
  match client.stdcl.clState with
  | .authenticated => return (server.setStdcl cl (cleanupStdClient client.stdcl)).dconnAdd thrd cl
  | .accepted =>
    let server ← server.timerheapRemove thrd cl
    let server ← server.preauthRemove thrd cl
    return server.free cl
  | .accepting =>
    let server ← server.preauthRemove thrd cl
    return server.free cl
  | .init => return server.free cl
  | _ => return server

/-- `create_std_client`, which gives the client its worker and an index outside the heap. -/
def register (server : Server) (thrd : Nat) (stdcl : StdClient) : Server :=
  let cl := server.allocated
  ({ server with
    clients := Function.update server.clients cl (some ⟨thrd, stdcl⟩)
    next := Function.update server.next cl none
    allocated := server.allocated + 1 }).setWorker thrd fun worker =>
      { worker with clth := worker.clth.register cl }

/-- One turn of the loop of `wt_handle_new_connections`, for a peer that is let in. -/
def handleNewConnection (server : Server) (thrd : Nat) (peerName : Bytes) (connection : Conn)
    (outcome : AcceptOutcome) (now : Timespec) : Option Server := do
  let cl := server.allocated
  let stdcl := createStdClient peerName connection
  let server := server.register thrd stdcl
  match outcome with
  | .done =>
    let server := server.setStdcl cl { stdcl with clState := .accepted, sockEvents := [.epollin] }
    let server ← server.timerheapAdd thrd cl now
    return server.preauthAdd thrd cl
  | .error => server.cleanup thrd cl
  | .pending =>
    let server := server.setStdcl cl { stdcl with clState := .accepting, sockEvents := [.epollin] }
    return server.preauthAdd thrd cl

/-- `wt_handle_accepting`. -/
def handleAccepting (server : Server) (thrd : Nat) (cl : Addr) (outcome : AcceptOutcome)
    (now : Timespec) : Option Server := do
  let client ← server.clients cl
  match outcome with
  | .done =>
    let server ← server.timerheapAdd thrd cl now
    return server.setStdcl cl { client.stdcl with clState := .accepted }
  | .error => server.cleanup thrd cl
  | .pending => return server

/-- `wt_handle_authentication` up to `htable_add`. An assertion that fails ends the server. -/
def handleAuthentication (server : Server) (thrd : Nat) (cl : Addr) (fns : AuthFns) :
    Option Server := do
  let client ← server.clients cl
  let outcome := recvDoWhile (authReqGroupSize - client.stdcl.tempRecvStorage.recvbuf.length)
    authWanted CurrRecvMsg.received client.stdcl.connection client.stdcl.tempRecvStorage
  let stdcl := client.stdcl.afterRecv outcome
  let server := server.setStdcl cl stdcl
  match outcome.stopped with
  | some .error => server.cleanup thrd cl
  | some .eblock => return server
  | none =>
    match authDecide fns server.clientTable (.ofBytes stdcl.tempRecvStorage.recvbuf) with
    | .error _ => none
    | .ok (respCode, req) =>
      if respCode ≠ .ok then (server.answer cl stdcl respCode).cleanup thrd cl
      else
        let server ← server.timerheapRemove thrd cl
        let server ← server.preauthRemove thrd cl
        return (server.setStdcl cl (promote stdcl req)).setTask thrd (.adding cl)

/-- `htable_add` for the client, and what follows where there is one with its key. The table writes
the links of its nodes, which are `next` then. -/
def handleAdd (server : Server) (thrd : Nat) (cl : Addr) (next : Links) : Option Server := do
  let client ← server.clients cl
  let key := client.stdcl.key
  if key.length = 0 then none
  else
    match server.table key with
    | none =>
      return ({ server with next, table := Function.update server.table key (some cl) }).setTask thrd
        (.activating cl)
    | some _ =>
      let server := { server with next }
      let stdcl := { client.stdcl with pendingUserdataQueue := [], pendingCtrlQueue := [] }
      let server ← (server.answer cl stdcl .duplicate).cleanup thrd cl
      return server.setTask thrd .idle

/-- The end of `wt_handle_authentication`, for a client that is in the table. -/
def handleActivate (server : Server) (thrd : Nat) (cl : Addr) : Option Server := do
  let client ← server.clients cl
  let server := server.answer cl client.stdcl .ok
  let client ← server.clients cl
  return (server.setStdcl cl { client.stdcl with
    clState := .authenticated
    tempRecvStorage := { client.stdcl.tempRecvStorage with recvbuf := [] } }).setTask thrd .idle

/-- One turn of the loop of `handle_clth_timeout`, at the time `now`. -/
def handleClthTimeout (server : Server) (thrd : Nat) (now : Timespec) : Option Server :=
  match clTimerheapPeek (server.workers thrd).clth with
  | none => some server
  | some cl => do
    let client ← server.clients cl
    let authDeadline := ((server.workers thrd).clth.client cl).authDeadline
    if client.stdcl.clState ≠ .accepted then
      let (_, clth) ← clTimerheapPop (server.workers thrd).clth
      return server.setClth thrd clth
    else if authDeadline.tvSec - now.tvSec ≤ 0 then
      let (_, clth) ← clTimerheapPop (server.workers thrd).clth
      ((server.setClth thrd clth).answer cl client.stdcl .timeout).cleanup thrd cl
    else
      return server

/-- What a handler of a session leaves. The first time it cleans its client up, it adds it to
`dconn_clients`. -/
def afterHandler (server : Server) (cl : Addr) (client : OwnedClient) (stdcl : StdClient) : Server :=
  let server := server.setStdcl cl stdcl
  if client.stdcl.clState = .authenticated ∧ stdcl.clState = .disconnected then
    server.dconnAdd client.ownerThrdId cl
  else server

/-- `wt_handle_inbound_data` up to `mpscq_enqueue`. -/
def handleInbound (server : Server) (thrd : Nat) (cl : Addr) (env : InboundEnv) :
    Option Server := do
  let client ← server.clients cl
  let result := wtHandleInboundData env client.stdcl
  let server := server.afterHandler cl client result.stdcl
  match result.forwarded with
  | none => return server.setTask thrd .idle
  | some (rcpt, msg) => return server.setTask thrd (.enqueuing cl rcpt msg)

/-- `mpscq_enqueue` on the `pending_userdata_queue` of a recipient. -/
def handleEnqueue (server : Server) (thrd : Nat) (cl rcpt : Addr) (msg : MpscMsgNode) : Server :=
  match server.clients rcpt with
  | none => server.setTask thrd .idle
  | some client =>
    let server := server.setStdcl rcpt { client.stdcl with
      pendingUserdataQueue := client.stdcl.pendingUserdataQueue ++ [msg] }
    ({ server with enqueued := server.enqueued ++ [(cl, rcpt, msg)] }).setTask thrd .idle

/-- `wt_handle_outbound_data`. -/
def handleOutbound (server : Server) (cl : Addr) : Option Server := do
  let client ← server.clients cl
  return server.afterHandler cl client
    (wtHandleOutboundData client.stdcl server.clientTable).stdcl

/-- `wt_handle_queued_messages` up to the lookup for the message it dequeued. -/
def handleDequeue (server : Server) (thrd : Nat) (cl : Addr) (resumeTable : ClientTable) :
    Option Server := do
  let client ← server.clients cl
  let waiting := client.stdcl.pendingUserdataQueue
  return (server.setStdcl cl { client.stdcl with pendingUserdataQueue := [] }).setTask thrd
    (.flushing cl resumeTable server.clientTable waiting)

/-- The rest of `wt_handle_queued_messages`. -/
def handleQueuedMessages (server : Server) (thrd : Nat) (cl : Addr)
    (resumeTable dequeueTable : ClientTable) (waiting : List MpscMsgNode) : Option Server := do
  let client ← server.clients cl
  let arrived := client.stdcl.pendingUserdataQueue
  let result ← wtHandleQueuedMessages { client.stdcl with pendingUserdataQueue := waiting }
    resumeTable dequeueTable arrived
  return (server.afterHandler cl client result.stdcl).setTask thrd .idle

/-- One turn of the loop of `node_arr_sweep`: `htable_remove` with the key of a node. The node that
leaves the table loses the reference of its worker. It is freed here: references are not counted, and
where another worker holds one, it is the `node_put` of that worker that frees the node. -/
def handleSweep (server : Server) (thrd : Nat) (cl : Addr) (rest : List Addr) (next : Links) :
    Option Server := do
  let client ← server.clients cl
  let key := client.stdcl.key
  if key.length = 0 then none
  else
    match server.table key with
    | none => return ({ server with next }).setTask thrd (.sweeping rest)
    | some removed =>
      return (({ server with next, table := Function.update server.table key none }).free
        removed).setTask thrd (.sweeping rest)

/-! ### Steps of the workers -/

/-- A node is in the table. -/
def InTable (server : Server) (cl : Addr) : Prop := ∃ key, server.table key = some cl

/-- An operation on the table writes links of its nodes, and of the one it is called for. -/
def TableWrites (server : Server) (cl : Addr) (next : Links) : Prop :=
  ∀ addr, addr ≠ cl → ¬ server.InTable addr → next addr = server.next addr

/-- A worker may call a handler for a client. -/
structure Ready (server : Server) (thrd : Nat) (cl : Addr) (client : OwnedClient) : Prop where
  idle : (server.workers thrd).task = .idle
  live : server.clients cl = some client
  owner : client.ownerThrdId = thrd

end Server

/-- A client has or had a session. -/
def StdClient.HasSession (stdcl : StdClient) : Prop :=
  stdcl.clState = .authenticated ∨ stdcl.clState = .disconnected

/-- One step of one worker, or of a peer. -/
inductive ServerStep (server : Server) : Server → Prop
  | arrives {cl client} (connection : Conn) (live : server.clients cl = some client) :
      ServerStep server (server.setStdcl cl { client.stdcl with connection })
  | newConnection {next} (thrd : Nat) (peerName : Bytes) (connection : Conn)
      (outcome : AcceptOutcome) (now : Timespec) (idle : (server.workers thrd).task = .idle)
      (call : server.handleNewConnection thrd peerName connection outcome now = some next) :
      ServerStep server next
  | accepting {thrd cl client next} (outcome : AcceptOutcome) (now : Timespec)
      (ready : server.Ready thrd cl client) (state : client.stdcl.clState = .accepting)
      (call : server.handleAccepting thrd cl outcome now = some next) : ServerStep server next
  | authentication {thrd cl client next} (fns : AuthFns) (ready : server.Ready thrd cl client)
      (state : client.stdcl.clState = .accepted)
      (call : server.handleAuthentication thrd cl fns = some next) : ServerStep server next
  | add {thrd cl links next} (task : (server.workers thrd).task = .adding cl)
      (writes : server.TableWrites cl links)
      (call : server.handleAdd thrd cl links = some next) : ServerStep server next
  | activate {thrd cl next} (task : (server.workers thrd).task = .activating cl)
      (call : server.handleActivate thrd cl = some next) : ServerStep server next
  | timeout {next} (thrd : Nat) (now : Timespec) (idle : (server.workers thrd).task = .idle)
      (call : server.handleClthTimeout thrd now = some next) : ServerStep server next
  | hangup {thrd cl client next} (ready : server.Ready thrd cl client)
      (call : server.cleanup thrd cl = some next) : ServerStep server next
  | validate {thrd cl client} (ready : server.Ready thrd cl client)
      (session : client.stdcl.HasSession) :
      ServerStep server (server.setTask thrd (.validating cl server.clientTable))
  | forward {thrd cl validationTable}
      (task : (server.workers thrd).task = .validating cl validationTable) :
      ServerStep server (server.setTask thrd (.forwarding cl validationTable server.clientTable))
  | inbound {thrd cl next} (env : InboundEnv)
      (task : (server.workers thrd).task = .forwarding cl env.validationTable env.forwardTable)
      (call : server.handleInbound thrd cl env = some next) : ServerStep server next
  | enqueue {thrd cl rcpt msg} (task : (server.workers thrd).task = .enqueuing cl rcpt msg) :
      ServerStep server (server.handleEnqueue thrd cl rcpt msg)
  | outbound {thrd cl client next} (ready : server.Ready thrd cl client)
      (session : client.stdcl.HasSession) (call : server.handleOutbound cl = some next) :
      ServerStep server next
  | resume {thrd cl client} (ready : server.Ready thrd cl client)
      (session : client.stdcl.HasSession) :
      ServerStep server (server.setTask thrd (.resuming cl server.clientTable))
  | dequeue {thrd cl resumeTable next} (task : (server.workers thrd).task = .resuming cl resumeTable)
      (call : server.handleDequeue thrd cl resumeTable = some next) : ServerStep server next
  | flush {thrd cl resumeTable dequeueTable waiting next}
      (task : (server.workers thrd).task = .flushing cl resumeTable dequeueTable waiting)
      (call : server.handleQueuedMessages thrd cl resumeTable dequeueTable waiting = some next) :
      ServerStep server next
  | sweep (thrd : Nat) (idle : (server.workers thrd).task = .idle) :
      ServerStep server
        (server.setTask thrd (.sweeping (server.workers thrd).dconnClients))
  | sweepNext {thrd cl rest links next} (task : (server.workers thrd).task = .sweeping (cl :: rest))
      (writes : server.TableWrites cl links)
      (call : server.handleSweep thrd cl rest links = some next) : ServerStep server next
  | sweepEnd {thrd} (task : (server.workers thrd).task = .sweeping []) :
      ServerStep server (server.setWorker thrd fun worker =>
        { worker with dconnClients := [], task := .idle })

/-- A run of all workers whose steps are of some kind. -/
inductive WorkersRun (Allowed : Server → Server → Prop) (start : Server) : Server → Prop
  | start : WorkersRun Allowed start start
  | step {server next} (run : WorkersRun Allowed start server) (step : ServerStep server next)
      (allowed : Allowed server next) : WorkersRun Allowed start next

end Lwmsg
