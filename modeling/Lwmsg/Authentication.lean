/-
This file models `wt_handle_authentication` of `server/worker.c` for one client, with
`validate_auth` of `server/dbops.c` and `normalize_string` of `common/util.c`. It says
for which requests the worker stays clear of the assertions of the hash table and
installs a session under a well-formed name.

The database and the hash of a password come from outside. A character array that holds
no NUL is read by `normalize_string` beyond its end; the string ends with the array here.
-/

import Lwmsg.InboundRuns

namespace Lwmsg

open Bytes Pointers

/-! ### Requests -/

/-- `auth_req_group`, with its numbers in the byte order of the host. -/
structure AuthReqGroup where
  requestType : Nat
  username : Bytes
  password : Bytes
  deriving DecidableEq, Repr

/-- The size of the packed structure. -/
@[simp] def authReqGroupSize : Nat := 4 + unamesize + pwdsize

/-- What the bytes of a request say. -/
def AuthReqGroup.ofBytes (buf : Bytes) : AuthReqGroup where
  requestType := beValue (slice 0 4 buf)
  username := slice 4 unamesize buf
  password := slice (4 + unamesize) pwdsize buf

/-- `REQ_AUTHENTICATION`, of `enum auth_req_type`. -/
def reqAuthentication : Nat := 0xF68C104A

/-- `enum auth_req_resp_code`. -/
inductive AuthReqRespCode
  | ok
  | invalReq
  | invalParam
  | timeout
  | duplicate
  deriving DecidableEq, Repr

def AuthReqRespCode.value : AuthReqRespCode → Nat
  | .ok => 0x51CEF28D
  | .invalReq => 0x23A80DBF
  | .invalParam => 0x128CE6DA
  | .timeout => 0x7F0CDE45
  | .duplicate => 0x1F7CE628

/-- The assertions of `htable.c` on the way of a request. -/
inductive AssertFailure
  | htableGet
  | fnv1a32Hash
  deriving DecidableEq, Repr

/-- `normalize_string`. -/
def normalizeString (str : Bytes) : Bytes :=
  (cString str).map toLower ++ str.drop (cString str).length

/-- `str[size - 1] = '\0'`. -/
def terminate (str : Bytes) : Bytes := str.set (str.length - 1) 0

/-! ### Validation -/

/-- What the server validates requests with: a setting of its configuration, the `password_sha256` a
query for a name returns, if it returns a row, and `SHA256`. -/
structure AuthFns where
  useAuth : Bool
  fetchQuery : Bytes → Option Bytes
  sha256 : Bytes → Bytes

/-- `SHA256_DIGEST_LENGTH`. -/
def sha256DigestLength : Nat := 32

/-- What `validate_auth` writes into a request. -/
def AuthReqGroup.normalized (req : AuthReqGroup) : AuthReqGroup where
  requestType := req.requestType
  username := normalizeString (terminate req.username)
  password := terminate req.password

/-- `validate_auth`. It answers, and leaves the request as it is or changed. -/
def validateAuth (fns : AuthFns) (req : AuthReqGroup) : Bool × AuthReqGroup :=
  if ¬ fns.useAuth then (true, req)
  else
    let req := req.normalized
    match fns.fetchQuery (cString req.username) with
    | none => (false, req)
    | some dbpwSha256 =>
      let reqpwSha256 := fns.sha256 (cString req.password)
      (dbpwSha256.take sha256DigestLength = reqpwSha256.take sha256DigestLength, req)

/-- `htable_get`, with its assertion that a key is not empty. -/
def ClientTable.get (table : ClientTable) (key : Bytes) :
    Except AssertFailure (Option (Addr × ClientState)) :=
  if key.length = 0 then .error .htableGet else .ok (table key)

/-- `htable_add`: whether there is no such key yet. It hashes the key, which must not be empty. -/
def ClientTable.add (table : ClientTable) (key : Bytes) : Except AssertFailure Bool :=
  if key.length = 0 then .error .fnv1a32Hash else .ok (table key).isNone

/-- The decision about a request: the response, and the request as the validation leaves it. -/
def authDecide (fns : AuthFns) (table : ClientTable) (req : AuthReqGroup) :
    Except AssertFailure (AuthReqRespCode × AuthReqGroup) :=
  if req.requestType ≠ reqAuthentication then .ok (.invalReq, req)
  else
    match table.get (req.username.take (strnlen req.username unamesize)) with
    | .error assertion => .error assertion
    | .ok (some _) => .ok (.duplicate, req)
    | .ok none =>
      let (authRes, req) := validateAuth fns req
      .ok (if authRes then .ok else .invalParam, req)

/-! ### Sessions -/

/-- What the two lookups of a call find in the table of clients, and what it validates with. -/
structure AuthEnv where
  fns : AuthFns
  getTable : ClientTable
  addTable : ClientTable

/-- How a call left: the client stays as it is, is cleaned up, which frees it, or has a session. -/
inductive AuthExit
  | recvError
  | blocked
  | refused (respCode : AuthReqRespCode)
  | notAdded
  | installed
  deriving DecidableEq, Repr

structure AuthResult where
  exit : AuthExit
  stdcl : StdClient
  deriving DecidableEq, Repr

/-- `auth_send_resp`, which does not look at what `send_fn` answers. -/
def authSendResp (stdcl : StdClient) (respType : AuthReqRespCode) : StdClient :=
  { stdcl with connection := (stdcl.connection.sendFn (beBytes 4 respType.value)).2 }

/-- The loop that reads a request. -/
def authWanted (msg : CurrRecvMsg) : Option Nat :=
  if msg.recvbuf.length < authReqGroupSize then some (authReqGroupSize - msg.recvbuf.length)
  else none

/-- The client with the name and the queues of a session. The key of its node is its name. -/
def promote (stdcl : StdClient) (req : AuthReqGroup) : StdClient :=
  { stdcl with
    pendingUserdataQueue := []
    pendingCtrlQueue := []
    queueEvents := [.epollin]
    username := normalizeString (strncpy unamesize req.username)
    keySize := strnlen req.username unamesize }

/-- The bytes the node of a client is found by. -/
def StdClient.key (stdcl : StdClient) : Bytes := stdcl.username.take stdcl.keySize

/-- What follows the decision for a request. A failure is counted for the address of the client. -/
def authFinish (env : AuthEnv) (stdcl : StdClient) (respCode : AuthReqRespCode)
    (req : AuthReqGroup) : Except AssertFailure AuthResult :=
  if respCode ≠ .ok then .ok ⟨.refused respCode, authSendResp stdcl respCode⟩
  else
    let stdcl := promote stdcl req
    match env.addTable.add stdcl.key with
    | .error assertion => .error assertion
    | .ok false => .ok ⟨.notAdded, authSendResp stdcl .duplicate⟩
    | .ok true =>
      let stdcl := authSendResp stdcl respCode
      .ok ⟨.installed, { stdcl with
        clState := .authenticated
        tempRecvStorage := { stdcl.tempRecvStorage with recvbuf := [] } }⟩

/-- `wt_handle_authentication`. -/
def wtHandleAuthentication (env : AuthEnv) (stdcl : StdClient) : Except AssertFailure AuthResult :=
  let outcome := recvDoWhile (authReqGroupSize - stdcl.tempRecvStorage.recvbuf.length) authWanted
    CurrRecvMsg.received stdcl.connection stdcl.tempRecvStorage
  let stdcl := stdcl.afterRecv outcome
  match outcome.stopped with
  | some .error => .ok ⟨.recvError, stdcl⟩
  | some .eblock => .ok ⟨.blocked, stdcl⟩
  | none =>
    match authDecide env.fns env.getTable (.ofBytes stdcl.tempRecvStorage.recvbuf) with
    | .error assertion => .error assertion
    | .ok (respCode, req) => authFinish env stdcl respCode req

/-- The request a call has read, if it has read all of it. -/
def authRequestRead (stdcl : StdClient) : Option AuthReqGroup :=
  let outcome := recvDoWhile (authReqGroupSize - stdcl.tempRecvStorage.recvbuf.length) authWanted
    CurrRecvMsg.received stdcl.connection stdcl.tempRecvStorage
  match outcome.stopped with
  | none => some (.ofBytes outcome.state.recvbuf)
  | some _ => none

/-! ### Clients that are to authenticate -/

/-- A client between its handshake and its authentication: bytes arrive, and its worker calls the
handler, which waits for more. -/
inductive AwaitsAuth : StdClient → Prop
  | accepted (peerName : Bytes) (connection : Conn) :
      AwaitsAuth { createStdClient peerName connection with clState := .accepted }
  | arrived {stdcl} (connection : Conn) (awaits : AwaitsAuth stdcl) :
      AwaitsAuth { stdcl with connection }
  | blocked {stdcl after} (env : AuthEnv) (awaits : AwaitsAuth stdcl)
      (call : wtHandleAuthentication env stdcl = .ok ⟨.blocked, after⟩) : AwaitsAuth after

/-- What such a client keeps. -/
structure HoldsPart (stdcl : StdClient) (part : Bytes) : Prop where
  storage : stdcl.tempRecvStorage = .idle part
  short : part.length < authReqGroupSize

theorem authFills : Fills authWanted CurrRecvMsg.received
    (fun msg => authReqGroupSize - msg.recvbuf.length) (fun _ => True) where
  wanted_eq := by
    intro msg _
    rw [authWanted]
    by_cases short : msg.recvbuf.length < authReqGroupSize
    · rw [if_pos short, if_neg (by omega)]
    · rw [if_neg short, if_pos (by omega)]
  received_nil := CurrRecvMsg.hdrFills.received_nil
  received_append := CurrRecvMsg.hdrFills.received_append
  room_received := by
    intro msg bytes _ fits
    simp only [CurrRecvMsg.received, List.length_append]
    omega
  good_received := fun _ _ _ _ => trivial

/-- What the loop that reads a request does. -/
inductive AuthReceived (env : AuthEnv) (stdcl : StdClient) (part : Bytes) : Prop
  | stopped {exit connection bytes} (unread : authRequestRead stdcl = none)
      (notInstalled : exit ≠ .installed) (short : exit = .blocked →
        (part ++ bytes).length < authReqGroupSize)
      (call : wtHandleAuthentication env stdcl =
        .ok ⟨exit, stdcl.withRecv connection (.idle (part ++ bytes))⟩)
  | complete {connection buf} (length : buf.length = authReqGroupSize)
      (read : authRequestRead stdcl = some (.ofBytes buf))
      (call : wtHandleAuthentication env stdcl =
        match authDecide env.fns env.getTable (.ofBytes buf) with
        | .error assertion => .error assertion
        | .ok (respCode, req) =>
          authFinish env (stdcl.withRecv connection (.idle buf)) respCode req)

/-- The loop that reads a request stops with a part of it or with all of it. -/
theorem recvDoWhile_auth {stdcl : StdClient} {part : Bytes} (holds : HoldsPart stdcl part) :
    ∃ outcome bytes, recvDoWhile (authReqGroupSize - stdcl.tempRecvStorage.recvbuf.length)
        authWanted CurrRecvMsg.received stdcl.connection stdcl.tempRecvStorage = outcome ∧
      outcome.state = .idle (part ++ bytes) ∧
      stdcl.afterRecv outcome = stdcl.withRecv outcome.connection (.idle (part ++ bytes)) ∧
      (part ++ bytes).length ≤ authReqGroupSize ∧
      (outcome.stopped = none ↔ (part ++ bytes).length = authReqGroupSize) := by
  have short := holds.short
  have held : stdcl.tempRecvStorage.recvbuf = part := by
    rw [holds.storage]
    rfl
  have space : authReqGroupSize - stdcl.tempRecvStorage.recvbuf.length ≠ 0 := by
    rw [held]
    omega
  have loop := authFills.recvDoWhile stdcl.connection stdcl.tempRecvStorage trivial space
  obtain ⟨bytes, filled⟩ := authFills.recvWhile stdcl.connection stdcl.tempRecvStorage trivial
  generalize recvWhile authWanted CurrRecvMsg.received stdcl.connection stdcl.tempRecvStorage =
    outcome at loop filled
  have fits := filled.fits
  have complete := filled.complete
  have state : outcome.state = .idle (part ++ bytes) := by
    rw [filled.state_eq, holds.storage]
    rfl
  have room : (part ++ bytes).length = part.length + bytes.length := List.length_append
  rw [held] at fits complete
  refine ⟨outcome, bytes, loop, state, ?_, by omega, complete.trans ⟨fun all => by omega,
    fun all => by omega⟩⟩
  rw [StdClient.afterRecv, state, StdClient.withRecv]

theorem wtHandleAuthentication_received (env : AuthEnv) {stdcl : StdClient} {part : Bytes}
    (holds : HoldsPart stdcl part) : AuthReceived env stdcl part := by
  obtain ⟨outcome, bytes, loop, state, left, fits, complete⟩ := recvDoWhile_auth holds
  cases stopped : outcome.stopped with
  | none =>
    refine @AuthReceived.complete env stdcl part outcome.connection (part ++ bytes)
      (complete.mp stopped) ?_ ?_
    · rw [authRequestRead]
      simp only [loop, stopped, state]
      rfl
    · rw [wtHandleAuthentication]
      simp only [loop, stopped, left]
      rfl
  | some reason =>
    have part_lt : (part ++ bytes).length < authReqGroupSize := by
      refine lt_of_le_of_ne fits fun all => ?_
      rw [complete.mpr all] at stopped
      cases stopped
    have unread : authRequestRead stdcl = none := by
      rw [authRequestRead]
      simp only [loop, stopped]
    cases reason with
    | error =>
      refine @AuthReceived.stopped env stdcl part .recvError outcome.connection bytes unread
        (by simp) (fun _ => part_lt) ?_
      rw [wtHandleAuthentication]
      simp only [loop, stopped, left]
    | eblock =>
      refine @AuthReceived.stopped env stdcl part .blocked outcome.connection bytes unread (by simp)
        (fun _ => part_lt) ?_
      rw [wtHandleAuthentication]
      simp only [loop, stopped, left]

theorem AwaitsAuth.holdsPart {stdcl : StdClient} (awaits : AwaitsAuth stdcl) :
    ∃ part, HoldsPart stdcl part := by
  induction awaits with
  | accepted peerName connection => exact ⟨[], rfl, by decide⟩
  | arrived connection _ inductionHypothesis =>
    obtain ⟨part, holds⟩ := inductionHypothesis
    exact ⟨part, holds.storage, holds.short⟩
  | @blocked stdcl after env _ call inductionHypothesis =>
    obtain ⟨part, holds⟩ := inductionHypothesis
    cases wtHandleAuthentication_received env holds with
    | @stopped exit connection bytes unread notInstalled short result =>
      rw [result] at call
      cases call
      exact ⟨_, rfl, short rfl⟩
    | @complete connection buf length read result =>
      rw [result] at call
      split at call
      · cases call
      · rw [authFinish] at call
        split at call
        · cases call
        · simp only at call
          split at call <;> cases call

/-! ### Names -/

theorem toLower_eq_zero_iff (byte : UInt8) : toLower byte = 0 ↔ byte = 0 := by
  rw [toLower]
  split
  · rename_i letter
    have low := UInt8.le_iff_toNat_le.mp letter.1
    have high := UInt8.le_iff_toNat_le.mp letter.2
    have sum : (byte + 32).toNat = byte.toNat + 32 := by
      rw [UInt8.toNat_add]
      have small : byte.toNat + 32 < 256 := by
        have top : byte.toNat ≤ 90 := high
        omega
      exact Nat.mod_eq_of_lt small
    constructor
    · intro zero
      rw [zero] at sum
      have none : (0 : UInt8).toNat = 0 := rfl
      omega
    · rintro rfl
      exact absurd low (by decide)
  · exact Iff.rfl

theorem toLower_toLower (byte : UInt8) : toLower (toLower byte) = toLower byte := by
  by_cases letter : 65 ≤ byte ∧ byte ≤ 90
  · have lower : toLower byte = byte + 32 := by rw [toLower, if_pos letter]
    have high : byte.toNat ≤ 90 := UInt8.le_iff_toNat_le.mp letter.2
    have low : 65 ≤ byte.toNat := UInt8.le_iff_toNat_le.mp letter.1
    have sum : (byte + 32).toNat = byte.toNat + 32 := by
      rw [UInt8.toNat_add]
      exact Nat.mod_eq_of_lt (by show byte.toNat + 32 < 256; omega)
    rw [lower, toLower, if_neg]
    rintro ⟨_, top⟩
    have top : (byte + 32).toNat ≤ 90 := UInt8.le_iff_toNat_le.mp top
    omega
  · have same : toLower byte = byte := if_neg letter
    rw [same, same]

theorem cString_append_drop (str : Bytes) : str = cString str ++ str.drop (cString str).length := by
  induction str with
  | nil => rfl
  | cons byte rest inductionHypothesis =>
    rw [cString_cons]
    split
    · rfl
    · rw [List.length_cons, List.drop_succ_cons, List.cons_append, ← inductionHypothesis]

theorem take_length_cString (str : Bytes) : str.take (cString str).length = cString str :=
  (List.prefix_iff_eq_take.mp (List.takeWhile_prefix _)).symm

/-- What follows the C string in an array starts with a NUL. -/
theorem cString_drop (str : Bytes) : cString (str.drop (cString str).length) = [] := by
  induction str with
  | nil => rfl
  | cons byte rest inductionHypothesis =>
    rw [cString_cons]
    split
    · rename_i zero
      rw [List.length_nil, List.drop_zero, cString_cons, if_pos zero]
    · rw [List.length_cons, List.drop_succ_cons, inductionHypothesis]

theorem cString_normalizeString (str : Bytes) :
    cString (normalizeString str) = (cString str).map toLower := by
  rw [normalizeString, cString_clean_append, cString_drop, List.append_nil]
  intro byte member
  obtain ⟨letter, inside, rfl⟩ := List.mem_map.mp member
  exact fun zero => cString_clean str letter inside ((toLower_eq_zero_iff letter).mp zero)

theorem length_normalizeString (str : Bytes) : (normalizeString str).length = str.length := by
  have within := length_cString_le str
  rw [normalizeString, List.length_append, List.length_map, List.length_drop]
  omega

/-- A character array holds a NUL exactly if its C string is shorter. -/
theorem length_cString_lt_iff (str : Bytes) : (cString str).length < str.length ↔ 0 ∈ str := by
  constructor
  · intro short
    have split := cString_append_drop str
    have behind := cString_drop str
    cases rest : str.drop (cString str).length with
    | nil =>
      have none := congrArg List.length rest
      rw [List.length_drop, List.length_nil] at none
      omega
    | cons byte more =>
      rw [rest, cString_cons] at behind
      have zero : byte = 0 := by
        by_contra other
        rw [if_neg other] at behind
        cases behind
      rw [split, rest, zero]
      exact List.mem_append_right _ List.mem_cons_self
  · intro member
    by_contra long
    have whole : cString str = str := by
      have none : str.drop (cString str).length = [] := List.drop_of_length_le (not_lt.mp long)
      have split := cString_append_drop str
      rw [none, List.append_nil] at split
      exact split.symm
    exact cString_clean str 0 (whole.symm ▸ member) rfl

/-- A session under a name as other clients can write it. -/
structure WellNamed (stdcl : StdClient) : Prop where
  nonempty : cString stdcl.username ≠ []
  size : stdcl.username.length = unamesize
  terminated : 0 ∈ stdcl.username
  lower : ∀ byte ∈ cString stdcl.username, toLower byte = byte
  keySize : stdcl.keySize = (cString stdcl.username).length

section Promotion

variable {stdcl : StdClient} {req : AuthReqGroup}

theorem strnlen_username (size : req.username.length = unamesize) :
    strnlen req.username unamesize = (cString req.username).length := by
  rw [strnlen, List.take_of_length_le size.le]

theorem cString_promote (size : req.username.length = unamesize) :
    cString (promote stdcl req).username = (cString req.username).map toLower := by
  have within := length_cString_le req.username
  show cString (normalizeString (strncpy unamesize req.username)) = _
  rw [cString_normalizeString, cString_strncpy, List.take_of_length_le (by omega)]

/-- The key of a session is its name. -/
theorem key_promote (size : req.username.length = unamesize) :
    (promote stdcl req).key = (cString req.username).map toLower := by
  have split := cString_append_drop (promote stdcl req).username
  rw [cString_promote size] at split
  have length : (promote stdcl req).keySize = ((cString req.username).map toLower).length := by
    rw [List.length_map]
    exact strnlen_username size
  rw [StdClient.key, split, length, List.take_left]

/-- A session is named well exactly if its request holds a name with a NUL behind it. -/
theorem wellNamed_promote_iff (size : req.username.length = unamesize) :
    WellNamed (promote stdcl req) ↔
      cString req.username ≠ [] ∧ (cString req.username).length < unamesize := by
  have name := @cString_promote stdcl req size
  have whole : (promote stdcl req).username.length = unamesize := by
    show (normalizeString (strncpy unamesize req.username)).length = unamesize
    rw [length_normalizeString, length_strncpy]
  have nul := length_cString_lt_iff (promote stdcl req).username
  rw [name, whole, List.length_map] at nul
  constructor
  · intro named
    refine ⟨fun empty => named.nonempty ?_, nul.mpr named.terminated⟩
    rw [name, empty, List.map_nil]
  · rintro ⟨nonempty, short⟩
    refine ⟨?_, whole, nul.mp short, ?_, ?_⟩
    · rw [name]
      exact fun empty => nonempty (List.map_eq_nil_iff.mp empty)
    · rw [name]
      intro byte member
      obtain ⟨letter, _, rfl⟩ := List.mem_map.mp member
      exact toLower_toLower letter
    · rw [name, List.length_map]
      exact strnlen_username size

end Promotion

/-! ### Safe requests -/

/-- A call that fails no assertion, and if it installs a session, does so under a good name. -/
def AuthSafe (result : Except AssertFailure AuthResult) : Prop :=
  ∃ left, result = .ok left ∧ (left.exit = .installed → WellNamed left.stdcl)

/-- The condition on a request for authentication: its name is not empty, and it has a NUL behind it,
which `validate_auth` puts there where it validates, or the name is in use. -/
def AuthEnv.NamesSafely (env : AuthEnv) (req : AuthReqGroup) : Prop :=
  req.requestType = reqAuthentication →
    cString req.username ≠ [] ∧ (env.fns.useAuth = true ∨
      (cString req.username).length < unamesize ∨ (env.getTable (cString req.username)).isSome ∨
      (env.addTable ((cString req.username).map toLower)).isSome)

theorem cString_ne_nil_iff (str : Bytes) : cString str ≠ [] ↔ str.headD 0 ≠ 0 := by
  cases str with
  | nil => simp
  | cons byte rest =>
    rw [cString_cons]
    by_cases zero : byte = 0
    · simp [zero]
    · simp [zero]

/-- A name that `validate_auth` has validated has a NUL behind it. -/
theorem cString_normalized {req : AuthReqGroup} (size : req.username.length = unamesize)
    (nonempty : cString req.username ≠ []) :
    req.normalized.username.length = unamesize ∧ cString req.normalized.username ≠ [] ∧
      (cString req.normalized.username).length < unamesize := by
  have length : (terminate req.username).length = unamesize := by
    rw [terminate, List.length_set, size]
  have nul : 0 ∈ terminate req.username := by
    rw [terminate, size]
    exact List.mem_set (by rw [size]; decide) 0
  have first : cString (terminate req.username) ≠ [] := by
    rw [cString_ne_nil_iff] at nonempty ⊢
    cases name : req.username with
    | nil =>
      rw [name] at nonempty
      exact absurd rfl nonempty
    | cons byte rest =>
      rw [name] at nonempty size
      rw [terminate, size]
      exact nonempty
  have short := (length_cString_lt_iff _).mpr nul
  rw [length] at short
  have name : cString req.normalized.username = (cString (terminate req.username)).map toLower :=
    cString_normalizeString _
  refine ⟨?_, ?_, ?_⟩
  · show (normalizeString (terminate req.username)).length = unamesize
    rw [length_normalizeString, length]
  · rw [name]
    exact fun empty => first (List.map_eq_nil_iff.mp empty)
  · rw [name, List.length_map]
    exact short

/-- A request that is accepted leaves a name of the same size that is not empty. -/
theorem authDecide_name {fns : AuthFns} {table : ClientTable} {req later : AuthReqGroup}
    (size : req.username.length = unamesize)
    (decided : authDecide fns table req = .ok (.ok, later)) :
    later.username.length = unamesize ∧ cString later.username ≠ [] := by
  rw [authDecide] at decided
  split at decided
  · cases decided
  · split at decided
    · cases decided
    · cases decided
    · rename_i missing
      have nonempty : cString req.username ≠ [] := by
        intro empty
        rw [strnlen_username size, take_length_cString, empty] at missing
        cases missing
      obtain rfl : (validateAuth fns req).2 = later :=
        (Prod.mk.inj (Except.ok.inj decided)).2
      obtain ⟨sameSize, some, _⟩ := cString_normalized size nonempty
      rw [validateAuth]
      split
      · exact ⟨size, nonempty⟩
      · simp only
        split
        · exact ⟨sameSize, some⟩
        · exact ⟨sameSize, some⟩

/-- What follows the decision to let a client in. -/
theorem authSafe_finish_iff {env : AuthEnv} {stdcl : StdClient} {req : AuthReqGroup}
    (size : req.username.length = unamesize) (nonempty : cString req.username ≠ []) :
    AuthSafe (authFinish env stdcl .ok req) ↔ (cString req.username).length < unamesize ∨
      (env.addTable ((cString req.username).map toLower)).isSome := by
  have key := @key_promote stdcl req size
  have some : ((cString req.username).map toLower).length ≠ 0 := by
    rw [List.length_map]
    exact fun zero => nonempty (List.eq_nil_of_length_eq_zero zero)
  rw [authFinish, if_neg (by simp)]
  simp only [key, ClientTable.add, if_neg some]
  cases found : env.addTable ((cString req.username).map toLower) with
  | some entry =>
    refine iff_of_true ⟨_, rfl, fun installed => ?_⟩ (.inr rfl)
    cases installed
  | none =>
    have named := @wellNamed_promote_iff stdcl req size
    constructor
    · rintro ⟨left, same, named⟩
      cases same
      have well := named rfl
      exact .inl ((@wellNamed_promote_iff stdcl req size).mp
        ⟨well.nonempty, well.size, well.terminated, well.lower, well.keySize⟩).2
    · rintro (short | wrong)
      · have well := named.mpr ⟨nonempty, short⟩
        exact ⟨_, rfl, fun _ =>
          ⟨well.nonempty, well.size, well.terminated, well.lower, well.keySize⟩⟩
      · cases wrong

theorem authSafe_refused {env : AuthEnv} {stdcl : StdClient} {respCode : AuthReqRespCode}
    {req : AuthReqGroup} (refused : respCode ≠ .ok) :
    AuthSafe (authFinish env stdcl respCode req) := by
  rw [authFinish, if_pos refused]
  exact ⟨_, rfl, fun installed => by cases installed⟩

theorem validateAuth_of_useAuth {fns : AuthFns} (req : AuthReqGroup) (useAuth : fns.useAuth = true) :
    ∃ answer, validateAuth fns req = (answer, req.normalized) := by
  rw [validateAuth, if_neg (not_not.mpr useAuth)]
  simp only
  split
  · exact ⟨_, rfl⟩
  · exact ⟨_, rfl⟩

/-- For every client that is to authenticate, a call fails no assertion and installs a session under a
good name, if it installs one, exactly if the request it has read meets the condition. -/
theorem authentication_safe_iff {env : AuthEnv} {stdcl : StdClient} (awaits : AwaitsAuth stdcl) :
    AuthSafe (wtHandleAuthentication env stdcl) ↔
      ∀ req, authRequestRead stdcl = some req → env.NamesSafely req := by
  obtain ⟨part, holds⟩ := awaits.holdsPart
  cases wtHandleAuthentication_received env holds with
  | stopped unread notInstalled short call =>
    rw [call, unread]
    exact iff_of_true ⟨_, rfl, fun installed => absurd installed notInstalled⟩
      fun req read => by cases read
  | @complete connection buf length read call =>
    have size : (AuthReqGroup.ofBytes buf).username.length = unamesize := by
      refine length_slice ?_
      rw [length]
      decide
    have only : (∀ req, authRequestRead stdcl = some req → env.NamesSafely req) ↔
        env.NamesSafely (.ofBytes buf) := by
      rw [read]
      exact ⟨fun all => all _ rfl, fun safe req same => Option.some.inj same ▸ safe⟩
    have name : (AuthReqGroup.ofBytes buf).username.take
        (strnlen (AuthReqGroup.ofBytes buf).username unamesize) =
        cString (AuthReqGroup.ofBytes buf).username := by
      rw [strnlen_username size, take_length_cString]
    rw [only, call, authDecide]
    generalize AuthReqGroup.ofBytes buf = req at size name ⊢
    by_cases auth : req.requestType = reqAuthentication
    case neg =>
      rw [if_pos auth]
      exact iff_of_true (authSafe_refused (by simp)) fun same => absurd same auth
    rw [if_neg (not_not.mpr auth), name, ClientTable.get]
    by_cases nonempty : cString req.username = []
    case pos =>
      rw [nonempty, if_pos List.length_nil]
      refine iff_of_false ?_ fun safe => (safe auth).1 nonempty
      rintro ⟨left, same, _⟩
      cases same
    rw [if_neg fun zero => nonempty (List.eq_nil_of_length_eq_zero zero)]
    cases found : env.getTable (cString req.username) with
    | some entry =>
      exact iff_of_true (authSafe_refused (by simp)) fun _ =>
        ⟨nonempty, .inr (.inr (.inl (by rw [found]; rfl)))⟩
    | none =>
      by_cases useAuth : env.fns.useAuth = true
      · obtain ⟨answer, validated⟩ := validateAuth_of_useAuth req useAuth
        obtain ⟨size, nonempty', short⟩ := cString_normalized size nonempty
        simp only [validated]
        refine iff_of_true ?_ fun _ => ⟨nonempty, .inl useAuth⟩
        cases answer with
        | true => exact (authSafe_finish_iff size nonempty').mpr (.inl short)
        | false => exact authSafe_refused (by simp)
      · have unchanged : validateAuth env.fns req = (true, req) := if_pos useAuth
        simp only [unchanged]
        refine (authSafe_finish_iff size nonempty).trans ?_
        constructor
        · exact fun safe _ => ⟨nonempty, safe.elim (fun short => .inr (.inl short))
            fun used => .inr (.inr (.inr used))⟩
        · intro safe
          rcases (safe auth).2 with on | short | used | used
          · exact absurd on useAuth
          · exact .inl short
          · rw [found] at used
            cases used
          · exact .inr used

/-- A server without clients that lets everybody in. -/
def openServer : AuthEnv where
  fns := ⟨false, fun _ => none, fun _ => []⟩
  getTable := fun _ => none
  addTable := fun _ => none

/-- A client of which the server receives a request. -/
def requestingClient (username : Bytes) : StdClient :=
  { createStdClient [127, 0, 0, 1] {
      incoming := beBytes 4 reqAuthentication ++ username ++ List.replicate pwdsize 0
      recvEvents := [.upTo 99]
      recvAfter := .eblock
      accepted := []
      sendEvents := [.upTo 99]
      sendAfter := .eblock } with
    clState := .accepted }

/-- A request with an empty name fails an assertion, and one with a name that fills its field, where
the server does not validate, installs a session whose name has no end. -/
theorem authentication_unsafe :
    (∀ username, AwaitsAuth (requestingClient username)) ∧
      wtHandleAuthentication openServer (requestingClient (strncpy unamesize [])) =
        .error .htableGet ∧
      ∃ left, wtHandleAuthentication openServer (requestingClient (List.replicate unamesize 97)) =
        .ok left ∧ left.exit = .installed ∧ 0 ∉ left.stdcl.username := by
  refine ⟨fun username => .accepted _ _, by decide +kernel, ?_⟩
  have call : (wtHandleAuthentication openServer
      (requestingClient (List.replicate unamesize 97))).toOption.map
        (fun left => (left.exit, left.stdcl.username)) =
      some (.installed, List.replicate unamesize 97) := by
    decide +kernel
  obtain ⟨left, result, same⟩ := Option.map_eq_some_iff.mp call
  obtain ⟨exit, username⟩ := Prod.mk.inj same
  refine ⟨left, ?_, exit, by rw [username]; decide⟩
  cases answer : wtHandleAuthentication openServer
      (requestingClient (List.replicate unamesize 97)) with
  | error assertion =>
    rw [answer] at result
    cases result
  | ok other =>
    rw [answer] at result
    rw [Option.some.inj result]

/-- The name of a client that writes it with a capital letter. -/
theorem authentication_safe_iff_capital_letter :
    AuthSafe (wtHandleAuthentication openServer
      (requestingClient (strncpy unamesize (ofLiteral "Ann")))) := by
  refine (authentication_safe_iff (.accepted _ _)).mpr fun req read => ?_
  have named : authRequestRead (requestingClient (strncpy unamesize (ofLiteral "Ann"))) =
      some ⟨reqAuthentication, strncpy unamesize (ofLiteral "Ann"), List.replicate pwdsize 0⟩ := by
    decide +kernel
  obtain rfl := Option.some.inj (named.symm.trans read)
  exact fun _ => ⟨by decide, .inr (.inl (by decide))⟩

end Lwmsg
