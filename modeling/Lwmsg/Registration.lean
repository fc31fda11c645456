/-
This file models how the registration thread executes a request: `reg_ipb_rec_create` and
`chk_reg_block` of `server/ipblock.c`, and `manage_reg_ipbr`, `reg_handle_disconnect` and the
reading of a request in `handle_client_event` of `server/registration.c`. It says for which requests
the two ways to execute one do the same.

Between the steps of a handler nobody else uses the table here. Of a client that is cleaned up
nothing is left.
-/

import Lwmsg.Dbops
import Lwmsg.Ipblock

namespace Lwmsg

open Bytes Pointers

/-! ### Records -/

/-- `REGBLOCK_FAIL_THRES`. -/
def regblockFailThres : UInt8 := 5

/-- `REGBLOCK_SUCC_THRES`. -/
def regblockSuccThres : UInt8 := 1

/-- `REGBLOCK_EXPIRY`, in seconds. -/
def regblockExpiry : Nat := 7200

/-- `enum record_reason`. -/
inductive RecordReason
  | manual
  | regfail
  | regsucc
  deriving DecidableEq, Repr

/-- `reg_ipb_rec`. Of its timestamp only the seconds are looked at. -/
structure RegIpbRec where
  ipAddr : Bytes
  timestamp : Nat
  succRegs : UInt8
  failedRegs : UInt8
  isManual : Bool
  deriving DecidableEq, Repr

/-- `reg_ipb_rec_create`, at one moment of the monotonic clock. -/
def regIpbRecCreate (peerName : Bytes) (recReason : RecordReason) (currTimestamp : Nat) :
    RegIpbRec where
  ipAddr := peerName
  timestamp := currTimestamp + regblockExpiry
  succRegs := if recReason = .regsucc then 1 else 0
  failedRegs := if recReason = .regfail then 1 else 0
  isManual := recReason = .manual

/-- `chk_reg_block`. The difference of two times has a sign. -/
def chkRegBlock (ripbr : RegIpbRec) (currTimestamp : Nat) : RecordStatus :=
  if ripbr.isManual then .blocked
  else if (currTimestamp : Int) - ripbr.timestamp ≥ regblockExpiry then .expired
  else if ripbr.failedRegs ≥ regblockFailThres ∨ ripbr.succRegs ≥ regblockSuccThres then .blocked
  else .notBlocked

/-- What `manage_reg_ipbr` does to a record that is there. -/
def RegIpbRec.countAttempt (ripbr : RegIpbRec) (ripbReason : RecordReason) : RegIpbRec :=
  if ripbReason = .regsucc then { ripbr with succRegs := ripbr.succRegs + 1 }
  else { ripbr with failedRegs := ripbr.failedRegs + 1 }

theorem RegIpbRec.countAttempt_ne (ripbr : RegIpbRec) (ripbReason : RecordReason) :
    ripbr.countAttempt ripbReason ≠ ripbr := by
  have bumped : ∀ count : UInt8, count + 1 ≠ count := by
    intro count same
    have bits := congrArg UInt8.toBitVec same
    simp at bits
  rw [RegIpbRec.countAttempt]
  split
  · exact fun same => bumped _ (congrArg RegIpbRec.succRegs same)
  · exact fun same => bumped _ (congrArg RegIpbRec.failedRegs same)

/-! ### Requests -/

/-- `REQ_REGISTRATION`, of `enum auth_req_type`. -/
def reqRegistration : Nat := 0x1FE32976

/-- `REQ_DELETION`. -/
def reqDeletion : Nat := 0xDE1059BC

/-- The statement for a type of requests. -/
def requestStmt (requestType : Nat) : Option RegStatement :=
  if requestType = reqRegistration then some .reg
  else if requestType = reqDeletion then some .del
  else none

/-- A request is executed, if there is a statement for it. -/
def executeStmt (sha256 : Bytes → Bytes) (busy : Bool) (users : Users) (req : AuthReqGroup) :
    Bool × Users :=
  match requestStmt req.requestType with
  | none => (false, users)
  | some stmt =>
    let (result, users, _) := processRegReq sha256 busy stmt users req
    (result, users)

/-- A registration that failed or succeeded is counted, and a deletion that failed. -/
def countsRequest (requestType : Nat) (requestResult : Bool) : Bool :=
  requestStmt requestType = some .reg || !requestResult

/-- The reason a request is counted for. -/
def ripbReason (requestResult : Bool) : RecordReason := if requestResult then .regsucc else .regfail

/-- The table of users, and the record of an address. -/
structure RegTables where
  users : Users
  regIpblockTbl : Bytes → Option RegIpbRec

/-- `manage_reg_ipbr`. -/
def manageRegIpbr (tables : RegTables) (peerName : Bytes) (reason : RecordReason)
    (currTimestamp : Nat) : RegTables :=
  let record :=
    match tables.regIpblockTbl peerName with
    | none => regIpbRecCreate peerName reason currTimestamp
    | some ripbr => ripbr.countAttempt reason
  { tables with
    regIpblockTbl := fun other =>
      if other = peerName then some record else tables.regIpblockTbl other }

/-! ### Clients -/

/-- `reg_client`. Its buffer has the size of a request, and the bytes up to the offset are read. -/
structure RegClient where
  connection : Conn
  peerName : Bytes
  buf : Bytes
  bufDataOffset : Nat
  deriving DecidableEq, Repr

/-- Received bytes go to the offset of the buffer. -/
def RegClient.write (cl : RegClient) (bytes : Bytes) : RegClient :=
  { cl with
    buf := cl.buf.take cl.bufDataOffset ++ bytes ++ cl.buf.drop (cl.bufDataOffset + bytes.length) }

/-- What a handler leaves: the tables, the client unless it is cleaned up, and the response. -/
structure RegResult where
  tables : RegTables
  cl : Option RegClient
  resp : Option AuthReqRespCode

/-- What the registration thread works with: `SHA256`, whether the database is locked, and the
time. -/
structure RegEnv where
  sha256 : Bytes → Bytes
  busy : Bool
  currTimestamp : Nat

/-- `reg_handle_disconnect` for a client with unread data, of which `avail_data_fn` reports
`availData` bytes. What `recv_fn` answers is not looked at. -/
def regHandleDisconnect (env : RegEnv) (tables : RegTables) (availData : Nat) (cl : RegClient) :
    RegResult :=
  if cl.bufDataOffset + availData = authReqGroupSize then
    let cl :=
      match cl.connection.recvFn availData with
      | (.error _, _) => cl
      | (.ok bytes, _) => cl.write bytes
    let (_, users) := executeStmt env.sha256 env.busy tables.users (.ofBytes cl.buf)
    ⟨{ tables with users }, none, none⟩
  else ⟨tables, none, none⟩

/-- `handle_client_event` for a client whose connection is accepted. -/
def handleClientEvent (env : RegEnv) (tables : RegTables) (cl : RegClient) : RegResult :=
  if cl.bufDataOffset < authReqGroupSize then
    match cl.connection.recvFn (authReqGroupSize - cl.bufDataOffset) with
    | (.error .eblock, connection) => ⟨tables, some { cl with connection }, none⟩
    | (.error .error, _) => ⟨tables, none, none⟩
    | (.ok bytes, connection) =>
      let cl := { cl.write bytes with
        connection, bufDataOffset := cl.bufDataOffset + bytes.length }
      if cl.bufDataOffset = authReqGroupSize then
        let req := AuthReqGroup.ofBytes cl.buf
        let (requestResult, users) := executeStmt env.sha256 env.busy tables.users req
        let executed := { tables with users }
        let counted :=
          if countsRequest req.requestType requestResult then
            manageRegIpbr executed cl.peerName (ripbReason requestResult) env.currTimestamp
          else executed
        let respCode :=
          if requestResult then .ok
          else if (requestStmt req.requestType).isSome then .invalParam
          else .invalReq
        ⟨counted, none, some respCode⟩
      else ⟨tables, some cl, none⟩
  else ⟨tables, some cl, none⟩

/-! ### The two ways to execute a request -/

/-- The rest of a request that a client has sent, and what its connection is after it. -/
structure SentRest (cl : RegClient) (rest : Bytes) : Prop where
  size : cl.buf.length = authReqGroupSize
  unfinished : cl.bufDataOffset < authReqGroupSize
  complete : cl.bufDataOffset + rest.length = authReqGroupSize
  received : ∃ connection, cl.connection.recvFn rest.length = (.ok rest, connection)

/-- The request a client has sent. -/
def RegClient.request (cl : RegClient) (rest : Bytes) : AuthReqGroup :=
  .ofBytes (cl.buf.take cl.bufDataOffset ++ rest)

/-- The request deletes an account. -/
def DeletesAccount (env : RegEnv) (users : Users) (req : AuthReqGroup) : Prop :=
  req.requestType = reqDeletion ∧ env.busy = false ∧
    users.fetch req.account = some (passwordHash env.sha256 req.passwordText)

section
variable {env : RegEnv} {tables : RegTables} {cl : RegClient} {rest : Bytes}

theorem SentRest.write (sent : SentRest cl rest) :
    (cl.write rest).buf = cl.buf.take cl.bufDataOffset ++ rest := by
  have none : cl.buf.drop (cl.bufDataOffset + rest.length) = [] := by
    rw [sent.complete, ← sent.size]
    exact List.drop_length
  rw [RegClient.write, none, List.append_nil]

theorem SentRest.sized (sent : SentRest cl rest) : (cl.request rest).Sized := by
  have length : (cl.buf.take cl.bufDataOffset ++ rest).length = authReqGroupSize := by
    rw [List.length_append, List.length_take, sent.size, ← sent.complete]
    have within := sent.complete
    omega
  refine ⟨length_slice ?_, length_slice ?_⟩
  · rw [length]
    decide
  · rw [length]
    decide

/-- What the normal way leaves of the tables. -/
theorem SentRest.handleClientEvent (sent : SentRest cl rest) :
    (handleClientEvent env tables cl).tables =
      let (requestResult, users) := executeStmt env.sha256 env.busy tables.users (cl.request rest)
      if countsRequest (cl.request rest).requestType requestResult then
        manageRegIpbr { tables with users } cl.peerName (ripbReason requestResult)
          env.currTimestamp
      else { tables with users } := by
  obtain ⟨connection, received⟩ := sent.received
  have wanted : authReqGroupSize - cl.bufDataOffset = rest.length := by
    have complete := sent.complete
    omega
  rw [Lwmsg.handleClientEvent, if_pos sent.unfinished, wanted, received]
  simp only [sent.complete, if_true, sent.write]
  rfl

/-- What the way after a hangup leaves of the tables. -/
theorem SentRest.regHandleDisconnect (sent : SentRest cl rest) (availData : Nat) :
    (regHandleDisconnect env tables availData cl).tables =
      if availData = rest.length then
        { tables with
          users := (executeStmt env.sha256 env.busy tables.users (cl.request rest)).2 }
      else tables := by
  obtain ⟨connection, received⟩ := sent.received
  have same : cl.bufDataOffset + availData = authReqGroupSize ↔ availData = rest.length := by
    have complete := sent.complete
    omega
  rw [Lwmsg.regHandleDisconnect]
  by_cases all : availData = rest.length
  · rw [if_pos (same.mpr all), if_pos all, all, received]
    simp only [sent.write]
    rfl
  · rw [if_neg (fun fills => all (same.mp fills)), if_neg all]

/-- Counting a request changes the record of its address. -/
theorem manageRegIpbr_ne (users : Users) (peerName : Bytes) (reason : RecordReason)
    (currTimestamp : Nat) :
    (manageRegIpbr { tables with users } peerName reason currTimestamp).regIpblockTbl ≠
      tables.regIpblockTbl := by
  intro same
  have record := congrFun same peerName
  simp only [manageRegIpbr, if_true] at record
  cases held : tables.regIpblockTbl peerName with
  | none =>
    rw [held] at record
    cases record
  | some ripbr =>
    rw [held] at record
    exact ripbr.countAttempt_ne reason (Option.some.inj record)

/-- Which requests are not counted. -/
theorem countsRequest_executeStmt {users : Users} {req : AuthReqGroup} (sized : req.Sized) :
    countsRequest req.requestType (executeStmt env.sha256 env.busy users req).1 = false ↔
      DeletesAccount env users req := by
  rw [countsRequest, executeStmt, requestStmt, DeletesAccount]
  by_cases registration : req.requestType = reqRegistration
  · have other : req.requestType ≠ reqDeletion := by
      rw [registration]
      decide
    simp [registration, (registration ▸ other : reqRegistration ≠ reqDeletion)]
  · by_cases deletion : req.requestType = reqDeletion
    · have notReg : reqDeletion ≠ reqRegistration := by decide
      simp only [deletion, if_neg notReg, if_true, true_and]
      cases busy : env.busy with
      | true => simp [processRegReq]
      | false =>
        have deletes := (@processRegReq_del env.sha256 users req sized).1
        simp only [true_and]
        rw [← deletes]
        simp
    · simp [registration, deletion]

/-- A deletion that succeeds changes the table of users. -/
theorem DeletesAccount.users_ne {users : Users} {req : AuthReqGroup} (sized : req.Sized)
    (deletes : DeletesAccount env users req) :
    (executeStmt env.sha256 env.busy users req).2 ≠ users := by
  obtain ⟨deletion, unlocked, fetched⟩ := deletes
  have notReg : reqDeletion ≠ reqRegistration := by decide
  have left := (@processRegReq_del env.sha256 users req sized).2 req.account
  rw [if_pos ⟨fetched, rfl⟩] at left
  rw [executeStmt, requestStmt, deletion, if_neg notReg, if_pos rfl, unlocked]
  intro same
  have kept : (processRegReq env.sha256 false .del users req).2.1 = users := same
  rw [kept, fetched] at left
  cases left

/-- A request that is executed after its client hung up does to the table of users and to the
records what it does otherwise, exactly if `avail_data_fn` reports the rest of it and it deletes an
account. -/
theorem post_mortem_agrees_iff (sent : SentRest cl rest) (availData : Nat) :
    (regHandleDisconnect env tables availData cl).tables = (handleClientEvent env tables cl).tables ↔
      availData = rest.length ∧ DeletesAccount env tables.users (cl.request rest) := by
  have counts := @countsRequest_executeStmt env tables.users (cl.request rest) sent.sized
  rw [sent.handleClientEvent, sent.regHandleDisconnect]
  generalize executed : executeStmt env.sha256 env.busy tables.users (cl.request rest) = outcome
  rw [executed] at counts
  obtain ⟨requestResult, users⟩ := outcome
  simp only at counts ⊢
  cases counted : countsRequest (cl.request rest).requestType requestResult with
  | true =>
    rw [counted] at counts
    have kept : ∀ before : RegTables, before.regIpblockTbl = tables.regIpblockTbl → before ≠
        manageRegIpbr { tables with users } cl.peerName (ripbReason requestResult)
          env.currTimestamp := by
      intro before same equal
      exact manageRegIpbr_ne users cl.peerName _ _ (equal ▸ same)
    refine iff_of_false ?_ fun both => ?_
    · rw [if_pos rfl]
      split
      · exact kept _ rfl
      · exact kept _ rfl
    · have wrong := counts.mpr both.2
      cases wrong
  | false =>
    have deletes := counts.mp counted
    simp only [Bool.false_eq_true, if_false]
    by_cases all : availData = rest.length
    · rw [if_pos all]
      exact iff_of_true rfl ⟨all, deletes⟩
    · rw [if_neg all]
      refine iff_of_false (fun same => ?_) fun both => all both.1
      have changed := deletes.users_ne sent.sized
      rw [executed] at changed
      exact changed (congrArg RegTables.users same).symm

end

/-- The bytes of a request of `bob` with the password `a`. -/
def bobRequestBytes (requestType : Nat) : Bytes :=
  beBytes 4 requestType ++ [98, 111, 98] ++ List.replicate 29 0 ++ 97 :: List.replicate 19 0

/-- A client that has sent the first two bytes of a request before, and the rest of it now. -/
def bobClient (requestType : Nat) : RegClient where
  connection := ⟨(bobRequestBytes requestType).drop 2, [.upTo 100], .eblock, [], [], .eblock⟩
  peerName := [127, 0, 0, 1]
  buf := (bobRequestBytes requestType).take 2 ++ List.replicate 54 0
  bufDataOffset := 2

/-- The tables without an account and without a record. -/
def noTables : RegTables := ⟨.empty, fun _ => none⟩

theorem bobClient_sent (requestType : Nat) :
    SentRest (bobClient requestType) ((bobRequestBytes requestType).drop 2) where
  size := rfl
  unfinished := by
    show 2 < authReqGroupSize
    decide
  complete := rfl
  received := ⟨_, rfl⟩

/-- The table with the account of `bob`. -/
def bobUsers : Users :=
  ⟨[⟨[98, 111, 98], passwordHash sha256OfLetter [97]⟩], List.nodup_singleton _⟩

/-- A deletion of that account. -/
theorem post_mortem_agrees_iff_deletion :
    (regHandleDisconnect ⟨sha256OfLetter, false, 0⟩ ⟨bobUsers, fun _ => none⟩ 54
          (bobClient reqDeletion)).tables =
        (handleClientEvent ⟨sha256OfLetter, false, 0⟩ ⟨bobUsers, fun _ => none⟩
          (bobClient reqDeletion)).tables ↔
      54 = ((bobRequestBytes reqDeletion).drop 2).length ∧
        DeletesAccount ⟨sha256OfLetter, false, 0⟩ bobUsers
          ((bobClient reqDeletion).request ((bobRequestBytes reqDeletion).drop 2)) :=
  post_mortem_agrees_iff (bobClient_sent reqDeletion) 54

/-- A registration is counted if the client stays, and not if it hangs up. -/
theorem post_mortem_disagrees :
    ¬ ∀ env tables cl rest, SentRest cl rest →
      (regHandleDisconnect env tables rest.length cl).tables =
        (handleClientEvent env tables cl).tables := by
  intro claim
  have same := claim ⟨sha256OfLetter, false, 0⟩ noTables _ _ (bobClient_sent reqRegistration)
  have record := congrFun (congrArg RegTables.regIpblockTbl same) [127, 0, 0, 1]
  exact absurd record (by decide +kernel)

end Lwmsg
