/-
This file is about the list of users, from the table of the server to the cache of the client that
asked for it: `handle_request` and the answer of `wt_handle_inbound_data` in `server/worker.c`, and
`cache_userlist` and the case `MT_REQ` of `process_received_pdu` in `client/clrecv.c`.

The server sends the list as one PDU, however long it is, and the client decodes a PDU only when its
buffer holds all of it. So a list that is too long for this buffer is never decoded.
-/

import Lwmsg.HtableKeys
import Lwmsg.InboundFrames
import Mathlib.Algebra.BigOperators.Group.Finset.Basic

namespace Lwmsg

open Bytes Pointers

/-! ### The cache of the client -/

/-- `USER_CACHE_MAX`. -/
def userCacheMax : Nat := 25600

/-- The loop of `cache_userlist`, which may take so many turns. `buf` goes on behind the payload. -/
def cacheUserlistTurns (buf : Bytes) (payloadSize : Nat) : Nat → Nat → List Bytes → List Bytes
  | 0, _, userCache => userCache
  | turns + 1, offset, userCache =>
    if offset < payloadSize ∧ userCache.length < userCacheMax then
      let len := strnlen (buf.drop offset) (payloadSize - offset)
      let userCache :=
        if 0 < len ∧ len ≤ unamesize then userCache ++ [slice offset len buf] else userCache
      cacheUserlistTurns buf payloadSize turns (offset + (len + 1)) userCache
    else userCache

/-- `cache_userlist`, and the names it leaves in `user_cache`. Each turn goes on by one byte at
least. -/
def cacheUserlist (buf : Bytes) (payloadSize : Nat) : List Bytes :=
  cacheUserlistTurns buf payloadSize payloadSize 0 []

/-- What `process_received_pdu` does to `user_cache`. -/
def processUserCache (pdu : Bytes) (payloadSize : Nat) (userCache : List Bytes) : List Bytes :=
  if LwmpPdu.msgType pdu = MsgType.req.code ∧ LwmpPdu.respCode pdu = respCodes .ok ∧
      0 < payloadSize then
    cacheUserlist (pdu.drop lwmpHdrSize) payloadSize
  else userCache

/-- The client with its `user_cache`. -/
structure CachingClient where
  ctx : ClientCtx
  userCache : List Bytes
  deriving DecidableEq, Repr

/-- One turn of `clrecv_parse`. -/
def CachingClient.step (client : CachingClient) : Option (Handled × CachingClient) :=
  match clrecvStep client.ctx with
  | none => none
  | some (handled, ctx) =>
    match clrecvTurn client.ctx.recvBuf with
    | .pdu wirePayload _ =>
      some (handled, ⟨ctx, processUserCache client.ctx.recvBuf wirePayload client.userCache⟩)
    | .wait | .crcMismatch | .chunk _ | .noMark => some (handled, ⟨ctx, client.userCache⟩)

/-- The payload of a list of users. -/
def userListPayload (names : List Bytes) : Bytes := names.flatMap fun name => name ++ [0]

theorem cString_append_zero_append {name : Bytes} (clean : ∀ byte ∈ name, byte ≠ 0) (rest : Bytes) :
    cString (name ++ 0 :: rest) = name := by
  rw [cString_clean_append _ clean, cString_cons, if_pos rfl, List.append_nil]

/-- The loop takes the names out of the payload one after another. -/
theorem cacheUserlistTurns_names {names cached : List Bytes} {front more : Bytes} {turns : Nat}
    (clean : ∀ name ∈ names, ∀ byte ∈ name, byte ≠ 0)
    (sized : ∀ name ∈ names, 0 < name.length ∧ name.length ≤ unamesize)
    (few : cached.length + names.length ≤ userCacheMax) (enough : names.length ≤ turns) :
    cacheUserlistTurns (front ++ (userListPayload names ++ more))
      (front.length + (userListPayload names).length) turns front.length cached =
        cached ++ names := by
  induction names generalizing front cached turns with
  | nil =>
    cases turns with
    | zero => exact (List.append_nil cached).symm
    | succ turns =>
      rw [cacheUserlistTurns, if_neg, List.append_nil]
      exact fun more => absurd more.1 (Nat.lt_irrefl _)
  | cons name names inductionHypothesis =>
    cases turns with
    | zero => cases enough
    | succ turns =>
      obtain ⟨positive, short⟩ := sized name List.mem_cons_self
      have payload : userListPayload (name :: names) = name ++ 0 :: userListPayload names := by
        rw [userListPayload, List.flatMap_cons, List.append_assoc, List.singleton_append,
          userListPayload]
      rw [List.length_cons] at few enough
      have length : (userListPayload (name :: names)).length =
          name.length + 1 + (userListPayload names).length := by
        rw [payload, List.length_append, List.length_cons]
        omega
      have len : strnlen ((front ++ (userListPayload (name :: names) ++ more)).drop front.length)
          (front.length + (userListPayload (name :: names)).length - front.length) =
          name.length := by
        rw [List.drop_left, Nat.add_sub_cancel_left, strnlen, List.take_left, payload,
          cString_append_zero_append (clean name List.mem_cons_self)]
      have copied : slice front.length name.length
          (front ++ (userListPayload (name :: names) ++ more)) = name := by
        rw [slice, List.drop_left, payload, List.append_assoc, List.take_left]
      rw [cacheUserlistTurns, if_pos ⟨by omega, by omega⟩]
      simp only [len, copied]
      rw [if_pos ⟨positive, short⟩]
      have next := @inductionHypothesis (cached ++ [name]) (front ++ (name ++ [0])) turns
        (fun other member => clean other (List.mem_cons_of_mem _ member))
        (fun other member => sized other (List.mem_cons_of_mem _ member))
        (by rw [List.length_append, List.length_singleton]; omega) (by omega)
      have buffer : front ++ (name ++ [0]) ++ (userListPayload names ++ more) =
          front ++ (userListPayload (name :: names) ++ more) := by
        rw [payload]
        simp only [List.append_assoc, List.nil_append, List.cons_append]
      have offset : (front ++ (name ++ [0])).length = front.length + (name.length + 1) := by
        rw [List.length_append, List.length_append, List.length_singleton]
      have size : front.length + (name.length + 1) + (userListPayload names).length =
          front.length + (userListPayload (name :: names)).length := by
        rw [length]
        omega
      rw [buffer, offset, size] at next
      rw [next, List.append_assoc, List.singleton_append]

theorem length_le_userListPayload (names : List Bytes) :
    names.length ≤ (userListPayload names).length := by
  induction names with
  | nil => exact Nat.zero_le _
  | cons name names inductionHypothesis =>
    rw [userListPayload, List.flatMap_cons, List.length_append, List.length_append,
      List.length_singleton, List.length_cons, ← userListPayload]
    omega

/-- The cache holds the names of the payload. -/
theorem cacheUserlist_names {names : List Bytes} (more : Bytes)
    (clean : ∀ name ∈ names, ∀ byte ∈ name, byte ≠ 0)
    (sized : ∀ name ∈ names, 0 < name.length ∧ name.length ≤ unamesize)
    (few : names.length ≤ userCacheMax) :
    cacheUserlist (userListPayload names ++ more) (userListPayload names).length = names := by
  have cached := @cacheUserlistTurns_names names [] [] more (userListPayload names).length clean sized
    (by rw [List.length_nil, Nat.zero_add]; exact few) (length_le_userListPayload names)
  rw [List.nil_append, List.length_nil, Nat.zero_add, List.nil_append] at cached
  exact cached

/-! ### Reading the list -/

/-- The client is connected, and the response is what it receives next. -/
structure AwaitsResponse (response later : Bytes) (ctx : ClientCtx) : Prop where
  live : ctx.connected = true
  fits : ctx.recvBuf.length ≤ recvBufSize
  stream : ctx.recvBuf ++ ctx.connection.incoming = response ++ later

/-- The client took the response off its stream, its cache holds these names and each of them once,
and it decodes what comes behind the response. -/
structure UserListRead (names : Finset Bytes) (response later : Bytes) (client : CachingClient) :
    Prop where
  once : client.userCache.Nodup
  names : client.userCache.toFinset = names
  stream : client.ctx.recvBuf ++ client.ctx.connection.incoming = later
  decodes : ∀ frame more, ServerFrame frame → frame.length ≤ recvBufSize →
    client.ctx.recvBuf = frame ++ more →
      ∃ next, clrecvStep client.ctx = some (.frame frame, next)

/-- However a client receives a response: as long as some of it is missing, `clrecv_parse` waits and
there is room for more, and when the buffer holds all of it, the next turn handles it. -/
def UserListArrives (names : Finset Bytes) (response : Bytes) : Prop :=
  ∀ (start : ClientCtx) (later : Bytes), AwaitsResponse response later start →
    ∀ parsed ctx, ClrecvRun start parsed [] ctx → ctx.connected = true →
      (¬ response <+: ctx.recvBuf → clrecvStep ctx = none ∧ ctx.recvBuf.length < recvBufSize) ∧
      (response <+: ctx.recvBuf → ∀ userCache, ∃ next,
        CachingClient.step ⟨ctx, userCache⟩ = some (.frame response, next) ∧
          UserListRead names response later next)

/-- `clrecv_fill` leaves the client connected with more of the response, or it disconnects. -/
theorem AwaitsResponse.fill {response later : Bytes} {ctx : ClientCtx}
    (awaits : AwaitsResponse response later ctx) (live : (clrecvFill ctx).2.connected = true) :
    AwaitsResponse response later (clrecvFill ctx).2 := by
  obtain ⟨bytes, filled⟩ := clrecvFill_fills.recvWhile ctx.connection ctx.recvBuf trivial
  have stream := awaits.stream
  have room := filled.fits
  have fits := awaits.fits
  rw [filled.receives.incoming, ← List.append_assoc] at stream
  rw [clrecvFill] at live ⊢
  split at live
  · cases live
  · refine ⟨awaits.live, ?_, ?_⟩
    · simp only [filled.state_eq, List.length_append]
      omega
    · simp only [filled.state_eq]
      exact stream
  · refine ⟨awaits.live, ?_, ?_⟩
    · simp only [filled.state_eq, List.length_append]
      omega
    · simp only [filled.state_eq]
      exact stream

/-- A call of `clrecv_parse` that handled nothing changed nothing. -/
theorem clrecvParse_nothing {ctx next : ClientCtx} (call : clrecvParse ctx = some ([], next)) :
    next = ctx := by
  rw [clrecvParse, clrecvParseTurns] at call
  split at call
  · cases call
    rfl
  · obtain ⟨_, _, same⟩ := Option.map_eq_some_iff.mp call
    cases same

/-- As long as nothing was handled, the response is still what comes next. -/
theorem AwaitsResponse.run {response later : Bytes} {start ctx : ClientCtx}
    {parsed : List ClientCtx} {handled : List Handled} (awaits : AwaitsResponse response later start)
    (run : ClrecvRun start parsed handled ctx) (nothing : handled = [])
    (live : ctx.connected = true) : AwaitsResponse response later ctx := by
  induction run with
  | start => exact awaits
  | fill run before inductionHypothesis => exact (inductionHypothesis nothing before).fill live
  | parse run call inductionHypothesis =>
    obtain ⟨rfl, rfl⟩ := List.append_eq_nil_iff.mp nothing
    obtain rfl := clrecvParse_nothing call
    exact inductionHypothesis rfl live
  | command awaitingResp sendingChunks transferError run inductionHypothesis =>
    obtain ⟨before, fits, stream⟩ := inductionHypothesis nothing live
    exact ⟨before, fits, stream⟩

/-- A frame at the start of the buffer is handed over, whatever lies behind it. -/
theorem ServerFrame.clrecvStep_eq {ctx : ClientCtx} {frame more : Bytes} (server : ServerFrame frame)
    (small : frame.length < 2 ^ 64) (held : ctx.recvBuf = frame ++ more) :
    ∃ next, clrecvStep ctx = some (.frame frame, next) := by
  have front : ctx.recvBuf.take frame.length = frame := by rw [held, List.take_left]
  rcases server with pdu | chunk
  · rw [clrecvStep, held, pdu.turn small, ← held]
    simp only [front]
    exact ⟨_, rfl⟩
  · rw [clrecvStep, held, chunk.turn, ← held]
    simp only [front]
    exact ⟨_, rfl⟩

/-- What the client finds in the response. -/
theorem processUserCache_requestNode {names : List Bytes} (more : Bytes) (userCache : List Bytes)
    (some : names ≠ []) (clean : ∀ name ∈ names, ∀ byte ∈ name, byte ≠ 0)
    (sized : ∀ name ∈ names, 0 < name.length ∧ name.length ≤ unamesize)
    (few : names.length ≤ userCacheMax) (word : (userListPayload names).length < 2 ^ 64) :
    wirePayload (requestNode (userListPayload names)).buf = (userListPayload names).length ∧
      processUserCache ((requestNode (userListPayload names)).buf ++ more)
        (userListPayload names).length userCache = names := by
  have subject : (List.replicate unamesize (0 : UInt8)).length = unamesize := List.length_replicate
  have length := length_le_userListPayload names
  have positive : 0 < names.length := List.length_pos_iff.mpr some
  have filled : userListPayload names ≠ [] := List.ne_nil_of_length_pos (by omega)
  rw [requestNode_buf filled]
  have header := @length_lwmpHdr MsgType.req.code (userListPayload names).length _ _ subject
    length_requestOptional
  have noFile : MsgType.req.code ≠ MsgType.file.code := by decide
  refine ⟨?_, ?_⟩
  · rw [wirePayload, msgType_lwmpHdr (by decide),
      totalMsgSize_lwmpHdr subject length_requestOptional word, if_neg fun file => noFile file.1]
  · have respCode : beValue (slice 0 4 requestOptional) = respCodes .ok := by decide
    rw [List.append_assoc, processUserCache, msgType_lwmpHdr (by decide), LwmpPdu.respCode,
      optionalData_lwmpHdr subject length_requestOptional, if_pos ⟨rfl, respCode, by omega⟩,
      ← header, List.drop_left]
    exact cacheUserlist_names more clean sized few

/-- A list that fits the buffer arrives. -/
theorem userListArrives_of_fits {names : List Bytes} (some : names ≠ []) (once : names.Nodup)
    (clean : ∀ name ∈ names, ∀ byte ∈ name, byte ≠ 0)
    (sized : ∀ name ∈ names, 0 < name.length ∧ name.length ≤ unamesize)
    (few : names.length ≤ userCacheMax)
    (fits : lwmpHdrSize + (userListPayload names).length ≤ recvBufSize) :
    UserListArrives names.toFinset (requestNode (userListPayload names)).buf := by
  have positive : 0 < names.length := List.length_pos_iff.mpr some
  have filled : userListPayload names ≠ [] :=
    List.ne_nil_of_length_pos (Nat.lt_of_lt_of_le positive (length_le_userListPayload names))
  have word : (userListPayload names).length < 2 ^ 64 := by
    simp only [lwmpHdrSize, recvBufSize, lwmpMaxPduSize] at fits
    omega
  have pdu := requestNode_pduFrame filled word
  have small := fits
  rw [← length_requestNode filled] at small
  have short : (requestNode (userListPayload names)).buf.length < 2 ^ 64 :=
    small.trans_lt (by decide)
  intro start later awaits parsed ctx run live
  obtain ⟨_, _, stream⟩ := awaits.run run rfl live
  constructor
  · intro missing
    rcases cut_of_append stream with ⟨more, held, _⟩ | ⟨tail, unfinished, equal⟩
    · exact absurd ⟨more, held.symm⟩ missing
    · have server : ServerFrame (ctx.recvBuf ++ tail) := equal ▸ .inl pdu
      have length : (ctx.recvBuf ++ tail).length ≤ recvBufSize := equal ▸ small
      refine ⟨by rw [clrecvStep, server.turn_part unfinished (length.trans_lt (by decide))], ?_⟩
      have rest := List.length_pos_iff.mpr unfinished
      rw [List.length_append] at length
      omega
  · rintro ⟨more, held⟩ userCache
    obtain ⟨size, cached⟩ := processUserCache_requestNode more userCache some clean sized few word
    have turn : clrecvTurn ctx.recvBuf = .pdu (userListPayload names).length
        (requestNode (userListPayload names)).buf.length := by
      rw [← held, pdu.turn short, size]
    have noText : ¬ OverwritesNext ctx.recvBuf := by
      rintro ⟨empty, _⟩
      rw [turn] at empty
      injection empty with none _
      exact filled (List.length_eq_zero_iff.mp none)
    obtain ⟨next, step, rest, connection, _⟩ := ServerFrame.step (.inl pdu) short held.symm noText
    refine ⟨⟨next, names⟩, ?_, once, rfl, ?_, fun frame more server small held =>
      server.clrecvStep_eq (small.trans_lt (by decide)) held⟩
    · rw [CachingClient.step]
      simp only [step, turn]
      rw [← held, cached]
    · rw [← held, List.append_assoc] at stream
      show next.recvBuf ++ next.connection.incoming = later
      rw [rest, connection]
      exact List.append_cancel_left stream

/-- The client reads as much as its buffer takes. -/
theorem clrecvFill_full {incoming : Bytes} (long : recvBufSize ≤ incoming.length) :
    (clrecvFill (readingClient [incoming] [.upTo recvBufSize])).2.connected = true ∧
      (clrecvFill (readingClient [incoming] [.upTo recvBufSize])).2.recvBuf =
        incoming.take recvBufSize := by
  have length : (incoming.take recvBufSize).length = recvBufSize := by
    rw [List.length_take]
    omega
  have arriving : incoming ≠ [] := List.ne_nil_of_length_pos (Nat.lt_of_lt_of_le (by decide) long)
  have stream : [incoming].flatten = incoming := List.append_nil incoming
  have answer : recvOne (.upTo recvBufSize) incoming recvBufSize =
      .ok (incoming.take recvBufSize) := by
    rw [recvOne, if_neg (by decide), if_neg arriving, Nat.min_eq_right (Nat.le_succ _)]
  have read : recvWhile
      (fun recvBuf : Bytes =>
        if recvBuf.length < recvBufSize then some (recvBufSize - recvBuf.length) else none)
      (fun recvBuf bytes => recvBuf ++ bytes)
      (readingClient [incoming] [.upTo recvBufSize]).connection [] =
      ⟨none, { (readingClient [incoming] [.upTo recvBufSize]).connection with
        recvEvents := [], incoming := incoming.drop recvBufSize }, incoming.take recvBufSize⟩ := by
    have space : 0 < recvBufSize := by decide
    simp only [recvWhile, readingClient, List.length_singleton, recvTurns, List.length_nil, space,
      if_true, Nat.sub_zero, Conn.recvFn, stream, answer, List.nil_append, length, Nat.lt_irrefl,
      if_false]
  have empty : (readingClient [incoming] [.upTo recvBufSize]).recvBuf = [] := rfl
  rw [clrecvFill, empty, read]
  exact ⟨rfl, rfl⟩

/-- A list that does not fit never arrives. -/
theorem not_userListArrives_of_long {names : Finset Bytes} {response : Bytes}
    (long : recvBufSize < response.length) : ¬ UserListArrives names response := by
  intro arrives
  obtain ⟨live, full⟩ := clrecvFill_full (le_of_lt long)
  have awaits : AwaitsResponse response [] (readingClient [response] [.upTo recvBufSize]) :=
    ⟨rfl, Nat.zero_le _, by rw [List.append_nil]; exact List.append_nil response⟩
  have length : (response.take recvBufSize).length = recvBufSize := by
    rw [List.length_take]
    omega
  have missing : ¬ response <+: response.take recvBufSize := by
    intro whole
    have shorter := whole.length_le
    omega
  obtain ⟨waits, _⟩ := arrives _ _ awaits _ _ (.fill .start rfl) live
  rw [full] at waits
  have room := (waits missing).2
  omega

/-- The answer to a request that could not be processed leaves the cache as it was. -/
theorem not_userListArrives_of_empty : ¬ UserListArrives ∅ (requestNode []).buf := by
  intro arrives
  let start := readingClient [(requestNode []).buf] [.upTo 200]
  have awaits : AwaitsResponse (requestNode []).buf [] start :=
    ⟨rfl, Nat.zero_le _, by rw [List.append_nil]; exact List.append_nil _⟩
  have live : (clrecvFill start).2.connected = true := by decide +kernel
  have whole : (requestNode []).buf.isPrefixOf (clrecvFill start).2.recvBuf = true := by
    decide +kernel
  obtain ⟨next, step, read⟩ := (arrives _ _ awaits _ _ (.fill .start rfl) live).2
    (List.isPrefixOf_iff_prefix.mp whole) [ofLiteral "bob"]
  have kept : ((CachingClient.step ⟨(clrecvFill start).2, [ofLiteral "bob"]⟩).map
      fun result => result.2.userCache) = some [ofLiteral "bob"] := by
    decide +kernel
  rw [step, Option.map_some] at kept
  have none := read.names
  rw [Option.some.inj kept] at none
  exact absurd none (by decide)

/-! ### The connected users -/

/-- The name of a client. -/
def StdClient.name (stdc : StdClient) : Bytes := cString stdc.username

/-- The table holds the clients, of which these are connected, and each of them under its name. -/
structure ServesUsers (state : HtableState) (stdcls : Addr → StdClient) (users : Finset Addr) :
    Prop where
  table : ∃ key members power lists,
    TableInvariant stdClientCmp ValidUsername key members power state lists ∧
      (users = members.filter fun addr => isNotDisconnected (stdcls addr).clState = true) ∧
      ∀ addr ∈ users, key addr = (stdcls addr).name
  few : users.card ≤ userCacheMax
  sized : ∀ addr ∈ users, 1 ≤ (stdcls addr).name.length ∧ (stdcls addr).name.length ≤ 31

/-- The names in the order of the nodes. -/
def namesOf (stdcls : Addr → StdClient) (nodes : List Addr) : List Bytes :=
  (nodes.filter fun addr => isNotDisconnected (stdcls addr).clState).map fun addr =>
    (stdcls addr).name

theorem flatMap_userEntry (stdcls : Addr → StdClient) (nodes : List Addr) :
    (nodes.flatMap fun addr => userEntry (stdcls addr)) =
      userListPayload (namesOf stdcls nodes) := by
  induction nodes with
  | nil => rfl
  | cons addr nodes inductionHypothesis =>
    have rest : namesOf stdcls (addr :: nodes) =
        if isNotDisconnected (stdcls addr).clState then (stdcls addr).name :: namesOf stdcls nodes
        else namesOf stdcls nodes := by
      simp only [namesOf, List.filter_cons]
      split
      · rfl
      · rfl
    rw [List.flatMap_cons, inductionHypothesis, userEntry, rest]
    split
    · rw [userListPayload, userListPayload, List.flatMap_cons]
      rfl
    · rfl

theorem length_userListPayload (names : List Bytes) :
    (userListPayload names).length = (names.map fun name => name.length + 1).sum := by
  rw [userListPayload, List.length_flatMap]
  congr 1
  exact List.map_congr_left fun name _ => List.length_append

/-- The names that the server copies are those of the connected users, each once. -/
theorem ServesUsers.names {state : HtableState} {stdcls : Addr → StdClient} {users : Finset Addr}
    (serves : ServesUsers state stdcls users) :
    ∃ names : List Bytes,
      htableCopyAllKeys state (fun addr => nodeCopyUsername (stdcls addr)) =
          some (userListPayload names) ∧
        names.Nodup ∧ (names.toFinset = users.image fun addr => (stdcls addr).name) ∧
        names.length = users.card ∧ (∀ name ∈ names, ∀ byte ∈ name, byte ≠ 0) ∧
        (∀ name ∈ names, 0 < name.length ∧ name.length ≤ unamesize) ∧
        (userListPayload names).length =
          users.sum fun addr => (stdcls addr).name.length + 1 := by
  obtain ⟨key, members, power, lists, invariant, connected, keys⟩ := serves.table
  have inside (addr : Addr) : addr ∈ (nodesOf power lists).filter
      (fun addr => isNotDisconnected (stdcls addr).clState) ↔ addr ∈ users := by
    rw [List.mem_filter, invariant.mem_nodesOf, connected, Finset.mem_filter]
  have distinct : ((nodesOf power lists).filter
      fun addr => isNotDisconnected (stdcls addr).clState).Nodup :=
    invariant.nodup_nodesOf.filter _
  have members_eq : ((nodesOf power lists).filter
      fun addr => isNotDisconnected (stdcls addr).clState).toFinset = users := by
    ext addr
    rw [List.mem_toFinset, inside]
  have short : ∀ addr ∈ members, isNotDisconnected (stdcls addr).clState = true →
      (cString (stdcls addr).username).length < unamesize := by
    intro addr member live
    have mine : addr ∈ users := by
      rw [connected, Finset.mem_filter]
      exact ⟨member, live⟩
    exact Nat.lt_succ_of_le (serves.sized addr mine).2
  have copied := htableCopyAllKeys_usernames invariant short
  rw [flatMap_userEntry] at copied
  refine ⟨_, copied, ?_, ?_, ?_, ?_, ?_, ?_⟩
  · refine List.Nodup.map_on ?_ distinct
    intro first mine second also equal
    have listed := (inside first).mp mine
    have other := (inside second).mp also
    rw [← keys first listed, ← keys second other] at equal
    rw [connected] at listed other
    exact invariant.rehashable.distinctKeys first (Finset.mem_filter.mp listed).1 second
      (Finset.mem_filter.mp other).1 equal
  · rw [namesOf, ← members_eq]
    ext name
    simp
  · rw [namesOf, List.length_map, ← List.toFinset_card_of_nodup distinct, members_eq]
  · intro name member
    obtain ⟨addr, _, rfl⟩ := List.mem_map.mp member
    exact cString_clean _
  · intro name member
    obtain ⟨addr, listed, rfl⟩ := List.mem_map.mp member
    obtain ⟨positive, short⟩ := serves.sized addr ((inside addr).mp listed)
    exact ⟨positive, short.trans (by decide)⟩
  · rw [length_userListPayload, namesOf, List.map_map, ← members_eq,
      List.sum_toFinset _ distinct]
    rfl

theorem handleRequest_of_asked {request : Bytes} (asked : validateRequest request = true)
    (userList : Bytes) : handleRequest request userList = userList := by
  rw [validateRequest, Bool.and_eq_true, beq_iff_eq, beq_iff_eq] at asked
  exact if_pos asked.2

/-! ### Users with long names -/

/-- The name of 31 bytes with a number. -/
def longName (number : Nat) : Bytes :=
  UInt8.ofNat (number / 64 + 1) :: UInt8.ofNat (number % 64 + 1) :: List.replicate 29 97

def longNamed (addr : Addr) : StdClient :=
  { createStdClient [] (readingClient [] []).connection with
    clState := .authenticated
    username := longName addr ++ [0] }

/-- The request for the list of users. -/
def userListRequest : Bytes :=
  lwmpHdr MsgType.req.code (List.replicate unamesize 0) (beBytes 4 reqUserList ++
    List.replicate (optdataLen - 4) 0) 0

theorem length_longName (number : Nat) : (longName number).length = 31 := rfl

theorem longName_injective {first second : Nat} (small : first < 4096) (also : second < 4096)
    (same : longName first = longName second) : first = second := by
  obtain ⟨high, rest⟩ := List.cons.inj same
  obtain ⟨low, _⟩ := List.cons.inj rest
  have highs := congrArg UInt8.toNat high
  have lows := congrArg UInt8.toNat low
  simp only [UInt8.toNat_ofNat'] at highs lows
  omega

theorem longName_valid {number : Nat} (small : number < 4096) :
    ValidUsername (longName number) := by
  have digit (digit : Nat) (positive : 0 < digit) (byte : digit < 256) : UInt8.ofNat digit ≠ 0 := by
    intro zero
    have value : digit % 256 = 0 := by
      rw [← UInt8.toNat_ofNat', zero]
      rfl
    omega
  refine ⟨List.cons_ne_nil _ _, ?_, by rw [length_longName]; decide⟩
  intro byte member
  rcases List.mem_cons.mp member with rfl | rest
  · exact digit _ (Nat.succ_pos _) (by omega)
  · rcases List.mem_cons.mp rest with rfl | letters
    · exact digit _ (Nat.succ_pos _) (by omega)
    · rw [List.eq_of_mem_replicate letters]
      decide

/-- A table that these users were added to one after another. -/
theorem exists_longTable (count : Nat) (small : count ≤ 4096) :
    ∃ state power lists,
      TableInvariant stdClientCmp ValidUsername longName (Finset.range count) power state lists ∧
        ∀ addr, ∃ node, state.memory addr = some node ∧ node.key = longName addr := by
  induction count with
  | zero =>
    have created := @htableCreate_invariant .usernames 1 1 100 0 smallTable (by decide) (by decide)
      (by decide) (by decide) rfl fun addr => some ⟨longName addr, none, 1⟩
    refine ⟨_, _, _, created.table.congrKey fun addr member => ?_, fun addr => ⟨_, rfl, rfl⟩⟩
    exact absurd member (Finset.notMem_empty addr)
  | succ count inductionHypothesis =>
    obtain ⟨state, power, lists, invariant, live⟩ := inductionHypothesis (by omega)
    obtain ⟨node, found, named⟩ := live count
    obtain ⟨answer, next, newPower, others, _, same, outcome⟩ := htableAdd_spec
      stdClientCmp_keyOrder invariant Finset.notMem_range_self found named
      (longName_valid (by omega)) (by rw [Finset.card_range]; omega)
    refine ⟨next, newPower, others, ?_, fun addr => ?_⟩
    · rcases outcome with ⟨_, ⟨other, member, equal⟩, _⟩ | ⟨_, _, added⟩
      · have before := Finset.mem_range.mp member
        exact absurd (longName_injective (before.trans small) small equal) before.ne
      · rwa [Finset.range_add_one]
    · obtain ⟨node, found, named⟩ := live addr
      obtain ⟨other, still, key⟩ := same.live found
      exact ⟨other, still, key.trans named⟩

/-- They are connected users. -/
theorem exists_longUsers (count : Nat) (small : count ≤ 4096) :
    ∃ state, ServesUsers state longNamed (Finset.range count) := by
  have name (addr : Addr) (inside : addr ∈ Finset.range count) :
      longName addr = (longNamed addr).name := by
    have valid := longName_valid (lt_of_lt_of_le (Finset.mem_range.mp inside) small)
    show longName addr = cString (longName addr ++ [0])
    rw [cString_clean_append _ valid.2.1]
    exact (List.append_nil _).symm
  obtain ⟨state, power, lists, invariant, _⟩ := exists_longTable count small
  refine ⟨state, ⟨_, _, _, _, invariant, ?_, name⟩, ?_, fun addr inside => ?_⟩
  · exact (Finset.filter_true_of_mem fun addr _ => rfl).symm
  · rw [Finset.card_range]
    exact small.trans (by decide)
  · rw [← name addr inside]
    exact ⟨by rw [length_longName]; decide, le_of_eq (length_longName addr)⟩

/-- The list of at most so many connected users reaches the client exactly if there is a user, as
there is when one of them asked, and the buffer of the client holds the whole answer. -/
theorem userlist_arrives_iff {state : HtableState} {stdcls : Addr → StdClient}
    {users : Finset Addr} (serves : ServesUsers state stdcls users) (request : Bytes)
    (asked : validateRequest request = true) :
    ∃ reqbuf, htableCopyAllKeys state (fun addr => nodeCopyUsername (stdcls addr)) = some reqbuf ∧
      (UserListArrives (users.image fun addr => (stdcls addr).name)
          (requestNode (handleRequest request reqbuf)).buf ↔
        users.Nonempty ∧
          lwmpHdrSize + (users.sum fun addr => (stdcls addr).name.length + 1) ≤ recvBufSize) := by
  obtain ⟨names, copied, once, same, count, clean, sized, length⟩ := serves.names
  refine ⟨_, copied, ?_⟩
  rw [handleRequest_of_asked asked, ← same, ← length]
  constructor
  · intro arrives
    refine ⟨?_, ?_⟩
    · by_contra none
      rw [Finset.not_nonempty_iff_eq_empty.mp none, Finset.card_empty] at count
      rw [List.length_eq_zero_iff.mp count] at arrives
      exact not_userListArrives_of_empty arrives
    · by_contra long
      refine not_userListArrives_of_long ?_ arrives
      have some : userListPayload names ≠ [] := by
        intro empty
        rw [empty] at long
        exact long (by decide)
      rw [length_requestNode some]
      exact not_le.mp long
  · rintro ⟨asker, fits⟩
    have some : names ≠ [] := by
      rw [← List.length_pos_iff, count]
      exact Finset.card_pos.mpr asker
    exact userListArrives_of_fits some once clean sized (count ▸ serves.few) fits

/-- The list of 400 users with names of 31 bytes arrives. -/
theorem userlist_arrives_iff_400 : ∃ state reqbuf,
    htableCopyAllKeys state (fun addr => nodeCopyUsername (longNamed addr)) = some reqbuf ∧
      UserListArrives ((Finset.range 400).image fun addr => (longNamed addr).name)
        (requestNode (handleRequest userListRequest reqbuf)).buf := by
  obtain ⟨state, serves⟩ := exists_longUsers 400 (by decide)
  obtain ⟨reqbuf, copied, arrives⟩ := userlist_arrives_iff serves userListRequest (by decide +kernel)
  exact ⟨state, reqbuf, copied, arrives.mpr ⟨⟨0, by decide⟩, by decide +kernel⟩⟩

/-- The list of 512 users with names of 31 bytes does not. -/
theorem userlist_lost :
    ¬ ∀ state stdcls users, ServesUsers state stdcls users → ∀ request,
      validateRequest request = true → ∃ reqbuf,
        htableCopyAllKeys state (fun addr => nodeCopyUsername (stdcls addr)) = some reqbuf ∧
          UserListArrives (users.image fun addr => (stdcls addr).name)
            (requestNode (handleRequest request reqbuf)).buf := by
  intro claimed
  obtain ⟨state, serves⟩ := exists_longUsers 512 (by decide)
  have asked : validateRequest userListRequest = true := by decide +kernel
  obtain ⟨reqbuf, answered, arrives⟩ := claimed state longNamed _ serves userListRequest asked
  obtain ⟨names, copied, _, _, _, _, _, length⟩ := serves.names
  rw [answered] at copied
  obtain rfl := Option.some.inj copied
  have total : (userListPayload names).length = 16384 := by
    rw [length]
    decide +kernel
  have some : userListPayload names ≠ [] := List.ne_nil_of_length_pos (by omega)
  refine not_userListArrives_of_long ?_ arrives
  rw [handleRequest_of_asked asked, length_requestNode some, total]
  decide

end Lwmsg
