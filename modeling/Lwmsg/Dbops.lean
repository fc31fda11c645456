/-
This file models `process_reg_req` of `server/dbops.c` over the table `users` of the database, and
follows accounts through registrations, deletions and authentications.

A name and a password are cut where the functions cut them, and a name is folded to lower case. The
table holds at most one row for a name, and rows are compared byte by byte, as SQLite compares text
and blobs. `SHA256` comes from outside.
-/

import Lwmsg.Authentication

namespace Lwmsg

open Bytes Pointers

/-! ### The table of users -/

/-- A row of the table `users`. Its `id` is not looked at. -/
structure User where
  username : Bytes
  passwordSha256 : Bytes
  deriving DecidableEq, Repr

/-- The table `users`, in which `username` is unique. -/
structure Users where
  rows : List User
  unique : (rows.map User.username).Nodup

namespace Users

/-- The table without a row. -/
def empty : Users := ⟨[], List.nodup_nil⟩

/-- The row that `FETCH_QUERY` steps to, if there is one. -/
def fetch (users : Users) (username : Bytes) : Option Bytes :=
  (users.rows.find? fun user => user.username = username).map User.passwordSha256

/-- `REG_QUERY`, which the constraint refuses for a name that is in use. -/
def insert (users : Users) (username passwordSha256 : Bytes) : Option Users :=
  if used : username ∈ users.rows.map User.username then none
  else
    some ⟨users.rows ++ [⟨username, passwordSha256⟩], by
      rw [List.map_append, List.map_cons, List.map_nil]
      exact List.nodup_append.mpr ⟨users.unique, List.nodup_singleton _, by
        rintro name member _ last rfl
        obtain rfl := List.mem_singleton.mp last
        exact used member⟩⟩

/-- `DEL_QUERY`. -/
def delete (users : Users) (username passwordSha256 : Bytes) : Users where
  rows := users.rows.filter fun user => user ≠ ⟨username, passwordSha256⟩
  unique := (List.filter_sublist.map _).nodup users.unique

/-- How many rows `DEL_QUERY` deletes. -/
def matching (users : Users) (username passwordSha256 : Bytes) : Nat :=
  users.rows.count ⟨username, passwordSha256⟩

theorem fetch_eq_some_iff (users : Users) (username passwordSha256 : Bytes) :
    users.fetch username = some passwordSha256 ↔ ⟨username, passwordSha256⟩ ∈ users.rows := by
  constructor
  · intro fetched
    obtain ⟨user, found, rfl⟩ := Option.map_eq_some_iff.mp fetched
    obtain rfl : user.username = username := by simpa using List.find?_some found
    exact List.mem_of_find?_eq_some found
  · intro member
    cases found : users.rows.find? fun user => user.username = username with
    | none =>
      have missing := List.find?_eq_none.mp found _ member
      simp at missing
    | some user =>
      have named : user.username = username := by simpa using List.find?_some found
      have same : user = ⟨username, passwordSha256⟩ :=
        List.inj_on_of_nodup_map users.unique (List.mem_of_find?_eq_some found) member named
      rw [fetch, found, same]
      rfl

theorem fetch_eq_none_iff (users : Users) (username : Bytes) :
    users.fetch username = none ↔ username ∉ users.rows.map User.username := by
  rw [fetch, Option.map_eq_none_iff, List.find?_eq_none]
  constructor
  · rintro none member
    obtain ⟨user, inside, rfl⟩ := List.mem_map.mp member
    exact none user inside (decide_eq_true rfl)
  · intro unused user member same
    exact unused (List.mem_map.mpr ⟨user, member, of_decide_eq_true same⟩)

theorem insert_eq_none_iff (users : Users) (username passwordSha256 : Bytes) :
    users.insert username passwordSha256 = none ↔ (users.fetch username).isSome := by
  rw [insert]
  split
  · rename_i used
    refine iff_of_true rfl (Option.isSome_iff_ne_none.mpr fun none => ?_)
    exact (users.fetch_eq_none_iff username).mp none used
  · rename_i unused
    rw [(users.fetch_eq_none_iff username).mpr unused]
    simp

/-- The rows are unique, so two tables with the same rows fetch the same. -/
theorem fetch_congr {users other : Users} {username : Bytes}
    (same : ∀ passwordSha256, ⟨username, passwordSha256⟩ ∈ users.rows ↔
      ⟨username, passwordSha256⟩ ∈ other.rows) : users.fetch username = other.fetch username := by
  apply Option.ext
  intro passwordSha256
  rw [fetch_eq_some_iff, fetch_eq_some_iff]
  exact same passwordSha256

theorem fetch_insert {users inserted : Users} {username passwordSha256 : Bytes}
    (taken : users.insert username passwordSha256 = some inserted) (name : Bytes) :
    inserted.fetch name = if name = username then some passwordSha256 else users.fetch name := by
  rw [insert] at taken
  split at taken
  · cases taken
  · obtain rfl := Option.some.inj taken
    split
    · rename_i same
      subst same
      rw [fetch_eq_some_iff]
      exact List.mem_append_right _ (List.mem_singleton_self _)
    · rename_i other
      apply fetch_congr
      intro digest
      simp [other]

theorem matching_eq_zero_iff (users : Users) (username passwordSha256 : Bytes) :
    users.matching username passwordSha256 = 0 ↔ users.fetch username ≠ some passwordSha256 := by
  rw [matching, List.count_eq_zero, ne_eq, fetch_eq_some_iff]

/-- A row that a name and a digest match is the row of that name. -/
theorem fetch_delete {users : Users} {username passwordSha256 : Bytes}
    (fetched : users.fetch username = some passwordSha256) (name : Bytes) :
    (users.delete username passwordSha256).fetch name =
      if name = username then none else users.fetch name := by
  split
  · rename_i same
    subst same
    rw [fetch_eq_none_iff]
    intro member
    obtain ⟨user, inside, named⟩ := List.mem_map.mp member
    obtain ⟨old, differs⟩ := List.mem_filter.mp inside
    have row := (users.fetch_eq_some_iff name passwordSha256).mp fetched
    exact of_decide_eq_true differs (List.inj_on_of_nodup_map users.unique old row named)
  · rename_i other
    apply fetch_congr
    intro digest
    simp [delete, other]

end Users

/-! ### Registration requests -/

/-- The statements of the registration thread. -/
inductive RegStatement
  | reg
  | del
  deriving DecidableEq, Repr

/-- What `sqlite3_step` makes of a statement, with `sqlite3_changes`, where it answers
`SQLITE_DONE`. -/
def RegStatement.step (stmt : RegStatement) (users : Users) (username passwordSha256 : Bytes) :
    Option (Users × Nat) :=
  match stmt with
  | .reg => (users.insert username passwordSha256).map fun inserted => (inserted, 1)
  | .del => some (users.delete username passwordSha256, users.matching username passwordSha256)

/-- The `SHA256_DIGEST_LENGTH` bytes that `SHA256` writes. -/
def passwordHash (sha256 : Bytes → Bytes) (password : Bytes) : Bytes :=
  (sha256 password).take sha256DigestLength

/-- `process_reg_req`. A step that meets a lock of another connection fails. -/
def processRegReq (sha256 : Bytes → Bytes) (busy : Bool) (stmt : RegStatement) (users : Users)
    (req : AuthReqGroup) : Bool × Users × AuthReqGroup :=
  let req := req.normalized
  if busy then (false, users, req)
  else
    match stmt.step users (cString req.username) (passwordHash sha256 (cString req.password)) with
    | none => (false, users, req)
    | some (users, changes) => (changes ≠ 0, users, req)

/-- What `validate_auth` finds in the table. -/
def Users.authFns (users : Users) (sha256 : Bytes → Bytes) : AuthFns where
  useAuth := true
  fetchQuery := users.fetch
  sha256 := sha256

/-! ### Names and passwords -/

/-- The sizes of the fields of a request. -/
structure AuthReqGroup.Sized (req : AuthReqGroup) : Prop where
  username : req.username.length = unamesize
  password : req.password.length = pwdsize

/-- The account a request is about. -/
def AuthReqGroup.account (req : AuthReqGroup) : Bytes :=
  (cString (req.username.take (unamesize - 1))).map toLower

/-- The password of a request. -/
def AuthReqGroup.passwordText (req : AuthReqGroup) : Bytes :=
  cString (req.password.take (pwdsize - 1))

theorem cString_terminate {str : Bytes} {size : Nat} (length : str.length = size + 1) :
    cString (terminate str) = cString (str.take size) := by
  have cut : terminate str = str.take size ++ [0] := by
    rw [terminate, length, Nat.add_sub_cancel, List.set_eq_take_append_cons_drop, if_pos (by omega),
      List.drop_of_length_le (by omega)]
  have ends : cString ([0] : Bytes) = [] := rfl
  rw [cut, cString, cString, List.takeWhile_append]
  split
  · rename_i clean
    have whole := (List.takeWhile_prefix (p := (· ≠ 0)) (l := str.take size)).eq_of_length clean
    rw [whole]
    exact List.append_nil _
  · rfl

theorem AuthReqGroup.Sized.account {req : AuthReqGroup} (sized : req.Sized) :
    cString req.normalized.username = req.account := by
  have length : req.username.length = (unamesize - 1) + 1 := sized.username.trans (by decide)
  rw [AuthReqGroup.account, ← cString_terminate length]
  exact cString_normalizeString _

theorem AuthReqGroup.Sized.passwordText {req : AuthReqGroup} (sized : req.Sized) :
    cString req.normalized.password = req.passwordText := by
  have length : req.password.length = (pwdsize - 1) + 1 := sized.password.trans (by decide)
  rw [AuthReqGroup.passwordText, ← cString_terminate length]
  rfl

section
variable {sha256 : Bytes → Bytes} {users : Users} {req : AuthReqGroup}

/-- What a registration does. -/
theorem processRegReq_reg (sized : req.Sized) :
    (processRegReq sha256 false .reg users req).1 = (users.fetch req.account).isNone ∧
    ∀ name, (processRegReq sha256 false .reg users req).2.1.fetch name =
      if (users.fetch req.account).isNone ∧ name = req.account then
        some (passwordHash sha256 req.passwordText)
      else users.fetch name := by
  rw [processRegReq, if_neg (by simp)]
  simp only [RegStatement.step, sized.account, sized.passwordText]
  cases inserts : users.insert req.account (passwordHash sha256 req.passwordText) with
  | none =>
    have used := (users.insert_eq_none_iff _ _).mp inserts
    obtain ⟨digest, fetched⟩ := Option.isSome_iff_exists.mp used
    simp [fetched]
  | some inserted =>
    have free : users.fetch req.account = none := by
      cases fetched : users.fetch req.account with
      | none => rfl
      | some digest =>
        have refused := (users.insert_eq_none_iff req.account
          (passwordHash sha256 req.passwordText)).mpr (by rw [fetched]; rfl)
        rw [refused] at inserts
        cases inserts
    refine ⟨by simp [free], fun name => ?_⟩
    simpa [free] using Users.fetch_insert inserts name

/-- What a deletion does. -/
theorem processRegReq_del (sized : req.Sized) :
    ((processRegReq sha256 false .del users req).1 = true ↔
      users.fetch req.account = some (passwordHash sha256 req.passwordText)) ∧
    ∀ name, (processRegReq sha256 false .del users req).2.1.fetch name =
      if users.fetch req.account = some (passwordHash sha256 req.passwordText) ∧
        name = req.account then none
      else users.fetch name := by
  rw [processRegReq, if_neg (by simp)]
  simp only [RegStatement.step, sized.account, sized.passwordText, decide_eq_true_eq, ne_eq,
    Users.matching_eq_zero_iff, not_not]
  refine ⟨trivial, fun name => ?_⟩
  by_cases fetched : users.fetch req.account = some (passwordHash sha256 req.passwordText)
  · rw [Users.fetch_delete fetched]
    simp [fetched]
  · rw [if_neg (fun both => fetched both.1)]
    apply Users.fetch_congr
    intro digest
    have absent : (⟨req.account, passwordHash sha256 req.passwordText⟩ : User) ∉ users.rows :=
      fun member => fetched ((users.fetch_eq_some_iff _ _).mpr member)
    simp only [Users.delete, List.mem_filter, decide_eq_true_eq, and_iff_left_iff_imp]
    rintro member same
    exact absent (same ▸ member)

/-- What `validate_auth` answers. -/
theorem validateAuth_users (sized : req.Sized)
    (hashes : ∀ name digest, users.fetch name = some digest → ∃ password,
      digest = passwordHash sha256 password) :
    (validateAuth (users.authFns sha256) req).1 = true ↔
      users.fetch req.account = some (passwordHash sha256 req.passwordText) := by
  rw [validateAuth, if_neg (by simp [Users.authFns])]
  simp only [Users.authFns, sized.account, sized.passwordText]
  cases fetched : users.fetch req.account with
  | none => simp
  | some digest =>
    obtain ⟨password, rfl⟩ := hashes req.account digest fetched
    simp only [passwordHash, List.take_take, Nat.min_self, decide_eq_true_eq, Option.some.injEq]

end

/-! ### Accounts -/

/-- A request about an account, as the server gets it. -/
inductive AccountRequest
  | registration (req : AuthReqGroup)
  | deletion (req : AuthReqGroup)
  | authentication (req : AuthReqGroup)
  deriving DecidableEq, Repr

namespace AccountRequest

def req : AccountRequest → AuthReqGroup
  | registration req => req
  | deletion req => req
  | authentication req => req

/-- What the server answers to a request, and the table it leaves. -/
def execute (sha256 : Bytes → Bytes) (users : Users) : AccountRequest → Bool × Users
  | registration req =>
    let (result, users, _) := processRegReq sha256 false .reg users req
    (result, users)
  | deletion req =>
    let (result, users, _) := processRegReq sha256 false .del users req
    (result, users)
  | authentication req => ((validateAuth (users.authFns sha256) req).1, users)

/-- The request is an operation on the account, and it was successful. -/
def operatesOn (account : Bytes) : AccountRequest × Bool → Bool
  | (registration req, result) => result && req.account = account
  | (deletion req, result) => result && req.account = account
  | (authentication _, _) => false

end AccountRequest

/-- Requests one after another from the table without a row, each with its result. -/
def executeAll (sha256 : Bytes → Bytes) (requests : List AccountRequest) :
    List (AccountRequest × Bool) × Users :=
  requests.foldl (fun (history, users) request =>
    let (result, users) := request.execute sha256 users
    (history ++ [(request, result)], users)) ([], .empty)

/-- The last successful operation on an account. -/
def lastOperation (account : Bytes) (history : List (AccountRequest × Bool)) :
    Option AccountRequest :=
  (history.filter (AccountRequest.operatesOn account)).getLast?.map Prod.fst

/-- The last successful operation on the account was a registration. -/
def Registered (account : Bytes) (history : List (AccountRequest × Bool)) : Prop :=
  ∃ registered, lastOperation account history = some (.registration registered)

/-- The last successful operation on the account was a registration with the password. -/
def RegisteredWith (account passwordText : Bytes) (history : List (AccountRequest × Bool)) : Prop :=
  ∃ registered, lastOperation account history = some (.registration registered) ∧
    registered.passwordText = passwordText

/-- Every row of the table is that of the last registration of its account. -/
def HoldsAccounts (sha256 : Bytes → Bytes) (history : List (AccountRequest × Bool))
    (users : Users) : Prop :=
  ∀ account, users.fetch account =
    match lastOperation account history with
    | some (.registration req) => some (passwordHash sha256 req.passwordText)
    | _ => none

section
variable {sha256 : Bytes → Bytes} {history : List (AccountRequest × Bool)} {users : Users}
  {request : AccountRequest} {result : Bool} {account : Bytes}

theorem lastOperation_append : lastOperation account (history ++ [(request, result)]) =
    if AccountRequest.operatesOn account (request, result) then some request
    else lastOperation account history := by
  rw [lastOperation, List.filter_append]
  by_cases operates : AccountRequest.operatesOn account (request, result) = true
  · rw [if_pos operates, List.filter_cons_of_pos operates, List.filter_nil, List.getLast?_concat]
    rfl
  · rw [if_neg operates, List.filter_cons_of_neg operates, List.filter_nil, List.append_nil]
    rfl

theorem HoldsAccounts.registration {req : AuthReqGroup} (holds : HoldsAccounts sha256 history users)
    (sized : req.Sized) :
    HoldsAccounts sha256
      (history ++ [(.registration req, (processRegReq sha256 false .reg users req).1)])
      (processRegReq sha256 false .reg users req).2.1 := by
  obtain ⟨result, left⟩ := @processRegReq_reg sha256 users req sized
  intro name
  rw [left, lastOperation_append, AccountRequest.operatesOn, result, holds name]
  by_cases own : (users.fetch req.account).isNone = true ∧ name = req.account
  · rw [if_pos own, if_pos]
    rw [own.1, own.2, decide_eq_true rfl]
    rfl
  · have silent : ¬ ((users.fetch req.account).isNone && decide (req.account = name)) = true := by
      simp only [Bool.and_eq_true, decide_eq_true_eq]
      exact fun both => own ⟨both.1, both.2.symm⟩
    rw [if_neg own, if_neg silent]

theorem HoldsAccounts.deletion {req : AuthReqGroup} (holds : HoldsAccounts sha256 history users)
    (sized : req.Sized) :
    HoldsAccounts sha256
      (history ++ [(.deletion req, (processRegReq sha256 false .del users req).1)])
      (processRegReq sha256 false .del users req).2.1 := by
  obtain ⟨result, left⟩ := @processRegReq_del sha256 users req sized
  intro name
  rw [left, lastOperation_append, AccountRequest.operatesOn, holds name]
  by_cases own : users.fetch req.account = some (passwordHash sha256 req.passwordText) ∧
      name = req.account
  · rw [if_pos own, if_pos]
    rw [result.mpr own.1, own.2, decide_eq_true rfl]
    rfl
  · have silent : ¬ ((processRegReq sha256 false .del users req).1 &&
        decide (req.account = name)) = true := by
      simp only [Bool.and_eq_true, decide_eq_true_eq]
      exact fun both => own ⟨result.mp both.1, both.2.symm⟩
    rw [if_neg own, if_neg silent]

/-- A request leaves the table as the last operations say. -/
theorem HoldsAccounts.execute (holds : HoldsAccounts sha256 history users)
    (sized : request.req.Sized) :
    HoldsAccounts sha256 (history ++ [(request, (request.execute sha256 users).1)])
      (request.execute sha256 users).2 := by
  cases request with
  | registration req => exact holds.registration sized
  | deletion req => exact holds.deletion sized
  | authentication req =>
    intro name
    rw [lastOperation_append, if_neg (by simp [AccountRequest.operatesOn])]
    exact holds name

end

theorem executeAll_append (sha256 : Bytes → Bytes) (requests : List AccountRequest)
    (request : AccountRequest) :
    executeAll sha256 (requests ++ [request]) =
      ((executeAll sha256 requests).1 ++
        [(request, (request.execute sha256 (executeAll sha256 requests).2).1)],
      (request.execute sha256 (executeAll sha256 requests).2).2) := by
  rw [executeAll, List.foldl_append]
  rfl

/-- After any requests, the table is as their last operations say. -/
theorem holdsAccounts_executeAll (sha256 : Bytes → Bytes) (requests : List AccountRequest)
    (sized : ∀ request ∈ requests, request.req.Sized) :
    HoldsAccounts sha256 (executeAll sha256 requests).1 (executeAll sha256 requests).2 := by
  induction requests using List.reverseRecOn with
  | nil =>
    intro name
    rfl
  | append_singleton requests request inductionHypothesis =>
    rw [List.forall_mem_append, List.forall_mem_singleton] at sized
    rw [executeAll_append]
    exact (inductionHypothesis sized.1).execute sized.2

/-- The requests of a history are those that were executed. -/
theorem requests_executeAll (sha256 : Bytes → Bytes) (requests : List AccountRequest) :
    (executeAll sha256 requests).1.map Prod.fst = requests := by
  induction requests using List.reverseRecOn with
  | nil => rfl
  | append_singleton requests request inductionHypothesis =>
    rw [executeAll_append, List.map_append, inductionHypothesis]
    rfl

theorem lastOperation_mem {account : Bytes} {history : List (AccountRequest × Bool)}
    {request : AccountRequest} (last : lastOperation account history = some request) :
    request ∈ history.map Prod.fst := by
  obtain ⟨visited, found, rfl⟩ := Option.map_eq_some_iff.mp last
  exact List.mem_map_of_mem (List.mem_filter.mp (List.mem_of_getLast? found)).1

/-- After any registrations, deletions and authentications, `validate_auth` accepts a request exactly
if the last successful operation on its account was a registration with the same password, a
registration succeeds exactly if there is no such account, and a deletion exactly if there is one
with that password. -/
theorem account_life_cycle (sha256 : Bytes → Bytes) (requests : List AccountRequest)
    (req : AuthReqGroup) (sized : ∀ request ∈ requests, request.req.Sized) (reqSized : req.Sized)
    (injective : ∀ request ∈ requests,
      passwordHash sha256 request.req.passwordText = passwordHash sha256 req.passwordText →
      request.req.passwordText = req.passwordText) :
    let (history, users) := executeAll sha256 requests
    ((validateAuth (users.authFns sha256) req).1 = true ↔
        RegisteredWith req.account req.passwordText history) ∧
      ((processRegReq sha256 false .reg users req).1 = true ↔ ¬ Registered req.account history) ∧
      ((processRegReq sha256 false .del users req).1 = true ↔
        RegisteredWith req.account req.passwordText history) := by
  have holds := holdsAccounts_executeAll sha256 requests sized
  have executed := requests_executeAll sha256 requests
  revert holds executed
  generalize executeAll sha256 requests = state
  obtain ⟨history, users⟩ := state
  intro holds executed
  have hashes : ∀ name digest, users.fetch name = some digest → ∃ password,
      digest = passwordHash sha256 password := by
    intro name digest fetched
    rw [holds name] at fetched
    split at fetched
    · rename_i registered _
      exact ⟨registered.passwordText, (Option.some.inj fetched).symm⟩
    · cases fetched
  have fetches : users.fetch req.account = some (passwordHash sha256 req.passwordText) ↔
      RegisteredWith req.account req.passwordText history := by
    rw [holds req.account]
    constructor
    · intro fetched
      split at fetched
      · rename_i registered last
        have used : AccountRequest.registration registered ∈ requests :=
          executed ▸ lastOperation_mem last
        exact ⟨registered, last, injective _ used (Option.some.inj fetched)⟩
      · cases fetched
    · rintro ⟨registered, last, same⟩
      simp only [last, same]
  have free : (users.fetch req.account).isNone = true ↔ ¬ Registered req.account history := by
    rw [holds req.account]
    constructor
    · rintro none ⟨registered, last⟩
      simp [last] at none
    · intro unregistered
      split
      · rename_i registered last
        exact absurd ⟨registered, last⟩ unregistered
      · rfl
  refine ⟨(validateAuth_users reqSized hashes).trans fetches, ?_,
    (processRegReq_del reqSized).1.trans fetches⟩
  rw [(processRegReq_reg reqSized).1]
  exact free

/-- `SHA256` on the passwords `a` and `b`. -/
def sha256OfLetter (password : Bytes) : Bytes :=
  if password = [97] then
    [202, 151, 129, 18, 202, 27, 189, 202, 250, 194, 49, 179, 154, 35, 220, 77, 167, 134, 239, 248,
      20, 124, 78, 114, 185, 128, 119, 133, 175, 238, 72, 187]
  else
    [62, 35, 232, 22, 0, 57, 89, 74, 51, 137, 79, 101, 100, 225, 177, 52, 139, 189, 122, 0, 136,
      212, 44, 74, 203, 115, 238, 174, 213, 156, 0, 157]

/-- A request of `Bob` with a password of one letter. -/
def bobRequest (letter : UInt8) : AuthReqGroup where
  requestType := reqAuthentication
  username := [66, 111, 98] ++ List.replicate 29 0
  password := letter :: List.replicate 19 0

/-- After `Bob` registered with the password `a`, he asks for everything with the password `b`. -/
theorem account_life_cycle_bob :
    let (history, users) := executeAll sha256OfLetter [.registration (bobRequest 97)]
    ((validateAuth (users.authFns sha256OfLetter) (bobRequest 98)).1 = true ↔
        RegisteredWith (bobRequest 98).account (bobRequest 98).passwordText history) ∧
      ((processRegReq sha256OfLetter false .reg users (bobRequest 98)).1 = true ↔
        ¬ Registered (bobRequest 98).account history) ∧
      ((processRegReq sha256OfLetter false .del users (bobRequest 98)).1 = true ↔
        RegisteredWith (bobRequest 98).account (bobRequest 98).passwordText history) := by
  have sized : ∀ letter, (bobRequest letter).Sized := fun letter => ⟨rfl, rfl⟩
  refine account_life_cycle sha256OfLetter [.registration (bobRequest 97)] (bobRequest 98) ?_
    (sized 98) ?_
  · intro request member
    obtain rfl := List.mem_singleton.mp member
    exact sized 97
  · intro request member same
    obtain rfl := List.mem_singleton.mp member
    exact absurd same (by decide)

end Lwmsg
