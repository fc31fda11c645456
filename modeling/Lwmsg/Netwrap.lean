/-
This file models the two functions of `common/netwrap.c` that move bytes, as the
server and the client call them through `net_fns`, and the loops around them.

A connection holds the bytes its peer has sent or will send. What one call of
`recv_fn` or `send_fn` meets is an event: the call moves some of the bytes it may
move, or it fails. The events are arbitrary, so they stand for every way the
network splits a stream and for every moment at which a call would block. Plain
TCP and TLS behave alike here: both turn a result of zero into `ERROR`.
-/

import Lwmsg.Bytes

namespace Lwmsg

/-- The two negative results, `ERROR` and `EBLOCK`. -/
inductive NetFailure
  | error
  | eblock
  deriving DecidableEq, Repr

/-- What one call meets: it moves `limit + 1` bytes or all it may move, or it fails. -/
inductive NetEvent
  | upTo (limit : Nat)
  | failure (reason : NetFailure)
  deriving DecidableEq, Repr

/-- `conn`. What it meets after its last event stays the same for ever. -/
structure Conn where
  incoming : Bytes
  recvEvents : List NetEvent
  recvAfter : NetFailure
  accepted : Bytes
  sendEvents : List NetEvent
  sendAfter : NetFailure
  deriving DecidableEq, Repr

/-! ### Receiving -/

/-- What `recv_fn` answers to a request for `len` bytes. -/
def recvOne (event : NetEvent) (incoming : Bytes) (len : Nat) : Except NetFailure Bytes :=
  match event with
  | .failure reason => .error reason
  | .upTo limit =>
    if len = 0 then .error .error
    else if incoming = [] then .error .eblock
    else .ok (incoming.take (min (limit + 1) len))

/-- `recv_fn`. -/
def Conn.recvFn (connection : Conn) (len : Nat) : Except NetFailure Bytes × Conn :=
  match connection.recvEvents with
  | [] => (.error connection.recvAfter, connection)
  | event :: recvEvents =>
    match recvOne event connection.incoming len with
    | .error reason => (.error reason, { connection with recvEvents })
    | .ok bytes =>
      (.ok bytes, { connection with recvEvents, incoming := connection.incoming.drop bytes.length })

/-- How a loop around `recv_fn` ended: with a failure, or because it wanted no more bytes. -/
structure RecvOutcome (State : Type) where
  stopped : Option NetFailure
  connection : Conn
  state : State

/-- The turns of a loop that calls `recv_fn` while `wanted` names a number of bytes. -/
def recvTurns {State : Type} (wanted : State → Option Nat) (received : State → Bytes → State) :
    Nat → Conn → State → RecvOutcome State
  | 0, connection, state => ⟨some connection.recvAfter, connection, state⟩
  | turns + 1, connection, state =>
    match wanted state with
    | none => ⟨none, connection, state⟩
    | some len =>
      match connection.recvFn len with
      | (.error reason, connection) => ⟨some reason, connection, state⟩
      | (.ok bytes, connection) => recvTurns wanted received turns connection (received state bytes)

/-- A loop `while (wanted) { recv_fn; received }`. Each turn but the last uses up an event. -/
def recvWhile {State : Type} (wanted : State → Option Nat) (received : State → Bytes → State)
    (connection : Conn) (state : State) : RecvOutcome State :=
  recvTurns wanted received (connection.recvEvents.length + 1) connection state

/-- A loop `do { recv_fn; received } while (wanted)`, which first asks for `len` bytes. -/
def recvDoWhile {State : Type} (len : Nat) (wanted : State → Option Nat)
    (received : State → Bytes → State) (connection : Conn) (state : State) : RecvOutcome State :=
  match connection.recvFn len with
  | (.error reason, connection) => ⟨some reason, connection, state⟩
  | (.ok bytes, connection) => recvWhile wanted received connection (received state bytes)

theorem recvOne_ok {event : NetEvent} {incoming bytes : Bytes} {len : Nat}
    (answer : recvOne event incoming len = .ok bytes) :
    bytes ≠ [] ∧ bytes.length ≤ len ∧ incoming = bytes ++ incoming.drop bytes.length := by
  cases event with
  | failure reason => cases answer
  | upTo limit =>
    rw [recvOne] at answer
    split at answer
    · cases answer
    · split at answer
      · cases answer
      · rename_i positive some
        obtain rfl := Except.ok.inj answer
        refine ⟨?_, ?_, ?_⟩
        · intro empty
          rcases List.take_eq_nil_iff.mp empty with zero | none
          · omega
          · exact some none
        · rw [List.length_take]
          omega
        · rcases le_total (min (limit + 1) len) incoming.length with short | long
          · rw [List.length_take, Nat.min_eq_left short, List.take_append_drop]
          · rw [List.take_of_length_le long, List.drop_length, List.append_nil]

/-- What a call of `recv_fn` that delivers leaves. -/
theorem Conn.recvFn_ok {before after : Conn} {bytes : Bytes} {len : Nat}
    (call : before.recvFn len = (.ok bytes, after)) :
    bytes ≠ [] ∧ bytes.length ≤ len ∧ ∃ event, before =
      { after with incoming := bytes ++ after.incoming, recvEvents := event :: after.recvEvents } := by
  rw [Conn.recvFn] at call
  split at call
  · cases call
  · rename_i event recvEvents events
    split at call
    · cases call
    · rename_i delivered answer
      obtain ⟨nonempty, within, split⟩ := recvOne_ok answer
      cases call
      refine ⟨nonempty, within, event, ?_⟩
      rw [← split, ← events]

/-- A call that delivers bytes uses up an event. -/
theorem Conn.recvFn_fewer {before after : Conn} {bytes : Bytes} {len : Nat}
    (call : before.recvFn len = (.ok bytes, after)) :
    before.recvEvents.length = after.recvEvents.length + 1 := by
  obtain ⟨_, _, used, equal⟩ := Conn.recvFn_ok call
  rw [equal, List.length_cons]

/-- What a call of `recv_fn` that fails leaves. -/
theorem Conn.recvFn_error {before after : Conn} {reason : NetFailure} {len : Nat}
    (call : before.recvFn len = (.error reason, after)) :
    ∃ used, before = { after with recvEvents := used ++ after.recvEvents } := by
  rw [Conn.recvFn] at call
  split at call
  · cases call
    exact ⟨[], rfl⟩
  · rename_i event recvEvents events
    split at call
    · cases call
      refine ⟨[event], ?_⟩
      rw [List.singleton_append, ← events]
    · cases call

/-- No call of `recv_fn` on the connection will answer `ERROR` while it is asked for bytes. -/
def Conn.NeverFails (connection : Conn) : Prop :=
  connection.recvAfter = .eblock ∧ .failure .error ∉ connection.recvEvents

theorem Conn.NeverFails.recvFn {before after : Conn} {len : Nat} (clean : before.NeverFails)
    (space : len ≠ 0) : before.recvFn len ≠ (.error .error, after) := by
  intro call
  rw [Conn.recvFn] at call
  split at call
  · rw [clean.1] at call
    cases call
  · rename_i event recvEvents events
    have harmless : event ≠ .failure .error := by
      rintro rfl
      exact clean.2 (events ▸ List.mem_cons_self)
    cases event with
    | failure reason =>
      cases reason with
      | error => exact harmless rfl
      | eblock => cases call
    | upTo limit =>
      rw [recvOne, if_neg space] at call
      by_cases empty : before.incoming = []
      · rw [if_pos empty] at call
        cases call
      · rw [if_neg empty] at call
        cases call

/-- One connection is what another one becomes when it receives some bytes. -/
def Conn.Receives (before : Conn) (bytes : Bytes) (after : Conn) : Prop :=
  ∃ used, before =
    { after with incoming := bytes ++ after.incoming, recvEvents := used ++ after.recvEvents }

theorem Conn.Receives.nil (connection : Conn) : connection.Receives [] connection := ⟨[], rfl⟩

theorem Conn.Receives.trans {first second third : Conn} {bytes more : Bytes}
    (left : first.Receives bytes second) (right : second.Receives more third) :
    first.Receives (bytes ++ more) third := by
  obtain ⟨used, rfl⟩ := left
  obtain ⟨later, rfl⟩ := right
  exact ⟨used ++ later, by simp only [List.append_assoc]⟩

theorem Conn.Receives.neverFails {before after : Conn} {bytes : Bytes}
    (receives : before.Receives bytes after) (clean : before.NeverFails) : after.NeverFails := by
  obtain ⟨used, rfl⟩ := receives
  exact ⟨clean.1, fun member => clean.2 (List.mem_append_right used member)⟩

theorem Conn.Receives.incoming {before after : Conn} {bytes : Bytes}
    (receives : before.Receives bytes after) : before.incoming = bytes ++ after.incoming := by
  obtain ⟨_, rfl⟩ := receives
  rfl

/-! ### Loops that fill up -/

/-- A loop that wants exactly the bytes it still has room for, in the states it can be in. -/
structure Fills {State : Type} (wanted : State → Option Nat) (received : State → Bytes → State)
    (room : State → Nat) (good : State → Prop) : Prop where
  wanted_eq : ∀ state, good state → wanted state = if room state = 0 then none else some (room state)
  received_nil : ∀ state, good state → received state [] = state
  received_append : ∀ state first second, good state →
    received (received state first) second = received state (first ++ second)
  room_received : ∀ state bytes, good state → bytes.length ≤ room state →
    room (received state bytes) = room state - bytes.length
  good_received : ∀ state bytes, good state → bytes.length ≤ room state →
    good (received state bytes)

/-- What a filling loop did: it took some bytes from the front of the stream, and it ran to its
end exactly if it took all it had room for. -/
structure Filled {State : Type} (received : State → Bytes → State) (room : State → Nat)
    (connection : Conn) (state : State) (outcome : RecvOutcome State) (bytes : Bytes) : Prop where
  state_eq : outcome.state = received state bytes
  receives : connection.Receives bytes outcome.connection
  fits : bytes.length ≤ room state
  complete : outcome.stopped = none ↔ bytes.length = room state
  clean : connection.NeverFails → outcome.stopped ≠ some .error

section Filling

variable {State : Type} {wanted : State → Option Nat} {received : State → Bytes → State}
  {room : State → Nat} {good : State → Prop}

/-- A loop without room left stops before its first turn. -/
theorem Fills.recvWhile_full (fills : Fills wanted received room good) (connection : Conn)
    (state : State) (start : good state) (full : room state = 0) :
    Lwmsg.recvWhile wanted received connection state = ⟨none, connection, state⟩ := by
  rw [Lwmsg.recvWhile, recvTurns, fills.wanted_eq state start, if_pos full]

theorem Fills.recvWhile_failure (fills : Fills wanted received room good) {connection after : Conn}
    {state : State} {reason : NetFailure} (start : good state) (space : room state ≠ 0)
    (call : connection.recvFn (room state) = (.error reason, after)) :
    Lwmsg.recvWhile wanted received connection state = ⟨some reason, after, state⟩ := by
  rw [Lwmsg.recvWhile, recvTurns, fills.wanted_eq state start, if_neg space]
  simp only [call]

/-- Where a call delivers bytes, the loop goes on with them. -/
theorem Fills.recvWhile_turn (fills : Fills wanted received room good) {connection after : Conn}
    {state : State} {bytes : Bytes} (start : good state) (space : room state ≠ 0)
    (call : connection.recvFn (room state) = (.ok bytes, after)) :
    Lwmsg.recvWhile wanted received connection state =
      Lwmsg.recvWhile wanted received after (received state bytes) := by
  rw [Lwmsg.recvWhile, Lwmsg.recvWhile, Conn.recvFn_fewer call, recvTurns,
    fills.wanted_eq state start, if_neg space]
  simp only [call]

/-- The induction over the turns of such a loop: it is full, a call fails, or a call delivers bytes
and the loop goes on with them. -/
@[elab_as_elim]
theorem Fills.turns (fills : Fills wanted received room good) {motive : Conn → State → Prop}
    (full : ∀ connection state, good state → room state = 0 → motive connection state)
    (failure : ∀ connection state reason after, good state → room state ≠ 0 →
      connection.recvFn (room state) = (.error reason, after) → motive connection state)
    (turn : ∀ connection state bytes after, good state → room state ≠ 0 →
      connection.recvFn (room state) = (.ok bytes, after) →
      motive after (received state bytes) → motive connection state)
    (connection : Conn) (state : State) (start : good state) : motive connection state := by
  -- every turn that delivers bytes uses up an event
  induction length : connection.recvEvents.length using Nat.strong_induction_on
    generalizing connection state with
  | _ count inductionHypothesis =>
    by_cases empty : room state = 0
    · exact full connection state start empty
    · rcases call : connection.recvFn (room state) with ⟨answer, after⟩
      cases answer with
      | error reason => exact failure connection state reason after start empty call
      | ok bytes =>
        have within := (Conn.recvFn_ok call).2.1
        have fewer := Conn.recvFn_fewer call
        exact turn connection state bytes after start empty call
          (inductionHypothesis _ (by omega) after (received state bytes)
            (fills.good_received state bytes start within) rfl)

theorem Fills.filled_full (fills : Fills wanted received room good) (connection : Conn)
    (state : State) (start : good state) (full : room state = 0) :
    Filled received room connection state ⟨none, connection, state⟩ [] where
  state_eq := (fills.received_nil state start).symm
  receives := .nil connection
  fits := Nat.zero_le _
  complete := by simp [full]
  clean := by simp

theorem Fills.filled_failure (fills : Fills wanted received room good) {connection after : Conn}
    {state : State} {reason : NetFailure} (start : good state) (space : room state ≠ 0)
    (call : connection.recvFn (room state) = (.error reason, after)) :
    Filled received room connection state ⟨some reason, after, state⟩ [] where
  state_eq := (fills.received_nil state start).symm
  receives := Conn.recvFn_error call
  fits := Nat.zero_le _
  complete := by simp [Ne.symm space]
  clean := by
    rintro harmless equal
    cases equal
    exact harmless.recvFn space call

theorem Fills.recvWhile (fills : Fills wanted received room good) (connection : Conn)
    (state : State) (start : good state) :
    ∃ bytes, Filled received room connection state
      (recvWhile wanted received connection state) bytes := by
  refine fills.turns ?full ?failure ?turn connection state start
  case full =>
    intro connection state start full
    rw [fills.recvWhile_full _ _ start full]
    exact ⟨[], fills.filled_full connection state start full⟩
  case failure =>
    intro connection state reason after start space call
    rw [fills.recvWhile_failure start space call]
    exact ⟨[], fills.filled_failure start space call⟩
  case turn =>
    intro connection state bytes after start space call later
    rw [fills.recvWhile_turn start space call]
    obtain ⟨more, filled⟩ := later
    obtain ⟨_, within, used, before⟩ := Conn.recvFn_ok call
    have receives : connection.Receives bytes after := ⟨[used], before⟩
    have fits := filled.fits
    have complete := filled.complete
    rw [fills.room_received state bytes start within] at fits complete
    refine ⟨bytes ++ more, ?_, receives.trans filled.receives, ?_, ?_, ?_⟩
    · exact filled.state_eq.trans (fills.received_append state bytes more start)
    · rw [List.length_append]
      omega
    · refine complete.trans ?_
      rw [List.length_append]
      omega
    · exact fun harmless => filled.clean (receives.neverFails harmless)

/-- A loop that tests at its end does the same, where there is room at its start. -/
theorem Fills.recvDoWhile (fills : Fills wanted received room good) (connection : Conn)
    (state : State) (start : good state) (space : room state ≠ 0) :
    recvDoWhile (room state) wanted received connection state =
      Lwmsg.recvWhile wanted received connection state := by
  rw [Lwmsg.recvDoWhile]
  rcases call : connection.recvFn (room state) with ⟨answer, after⟩
  cases answer with
  | error reason => exact (fills.recvWhile_failure start space call).symm
  | ok bytes => exact (fills.recvWhile_turn start space call).symm

end Filling

/-! ### Sending -/

/-- `send_fn`. -/
def Conn.sendFn (connection : Conn) (data : Bytes) : Except NetFailure Nat × Conn :=
  match connection.sendEvents with
  | [] => (.error connection.sendAfter, connection)
  | .failure reason :: sendEvents => (.error reason, { connection with sendEvents })
  | .upTo limit :: sendEvents =>
    if data = [] then (.error .error, { connection with sendEvents })
    else
      let sent := min (limit + 1) data.length
      (.ok sent, { connection with sendEvents, accepted := connection.accepted ++ data.take sent })

/-- How a loop around `send_fn` ended, and the offset it reached. -/
structure SendOutcome where
  stopped : Option NetFailure
  connection : Conn
  offset : Nat

/-- The turns of a loop that sends what a buffer holds behind an offset. -/
def sendTurns (data : Bytes) : Nat → Conn → Nat → SendOutcome
  | 0, connection, offset => ⟨some connection.sendAfter, connection, offset⟩
  | turns + 1, connection, offset =>
    if offset < data.length then
      match connection.sendFn (data.drop offset) with
      | (.error reason, connection) => ⟨some reason, connection, offset⟩
      | (.ok sent, connection) => sendTurns data turns connection (offset + sent)
    else ⟨none, connection, offset⟩

/-- A loop `while (offset < size) { send_fn }`. Each turn but the last uses up an event. -/
def sendWhile (data : Bytes) (connection : Conn) (offset : Nat) : SendOutcome :=
  sendTurns data (connection.sendEvents.length + 1) connection offset

/-- A loop `do { send_fn } while (offset < size)`. -/
def sendDoWhile (data : Bytes) (connection : Conn) (offset : Nat) : SendOutcome :=
  match connection.sendFn (data.drop offset) with
  | (.error reason, connection) => ⟨some reason, connection, offset⟩
  | (.ok sent, connection) => sendWhile data connection (offset + sent)

/-- One connection is what another one becomes when it takes some bytes to send. -/
def Conn.Accepts (before : Conn) (bytes : Bytes) (after : Conn) : Prop :=
  ∃ used, after = { before with
    accepted := before.accepted ++ bytes
    sendEvents := after.sendEvents } ∧ before.sendEvents = used ++ after.sendEvents

theorem Conn.Accepts.nil (connection : Conn) : connection.Accepts [] connection :=
  ⟨[], by rw [List.append_nil], rfl⟩

theorem Conn.Accepts.trans {first second third : Conn} {bytes more : Bytes}
    (left : first.Accepts bytes second) (right : second.Accepts more third) :
    first.Accepts (bytes ++ more) third := by
  obtain ⟨used, equal, events⟩ := left
  obtain ⟨later, equal', events'⟩ := right
  refine ⟨used ++ later, ?_, by rw [events, events', List.append_assoc]⟩
  rw [equal', equal]
  simp only [List.append_assoc]

theorem Conn.Accepts.accepted {before after : Conn} {bytes : Bytes}
    (accepts : before.Accepts bytes after) : after.accepted = before.accepted ++ bytes := by
  obtain ⟨_, equal, _⟩ := accepts
  rw [equal]

/-- No call of `send_fn` on the connection will answer `ERROR` while it is given bytes. -/
def Conn.NeverBreaks (connection : Conn) : Prop :=
  connection.sendAfter = .eblock ∧ .failure .error ∉ connection.sendEvents

theorem Conn.Accepts.neverBreaks {before after : Conn} {bytes : Bytes}
    (accepts : before.Accepts bytes after) (clean : before.NeverBreaks) : after.NeverBreaks := by
  obtain ⟨used, equal, events⟩ := accepts
  refine ⟨?_, fun member => clean.2 (events ▸ List.mem_append_right used member)⟩
  rw [equal]
  exact clean.1

/-- What a call of `send_fn` that takes bytes leaves. -/
theorem Conn.sendFn_ok {before after : Conn} {data : Bytes} {sent : Nat}
    (call : before.sendFn data = (.ok sent, after)) :
    0 < sent ∧ sent ≤ data.length ∧ before.Accepts (data.take sent) after ∧
      before.sendEvents.length = after.sendEvents.length + 1 := by
  rw [Conn.sendFn] at call
  split at call
  · cases call
  · cases call
  · rename_i limit sendEvents events
    split at call
    · cases call
    · rename_i some
      have positive : 0 < data.length := List.length_pos_iff.mpr some
      cases call
      refine ⟨by omega, Nat.min_le_right _ _, ⟨[.upTo limit], rfl, events⟩, ?_⟩
      rw [events, List.length_cons]

/-- What a call of `send_fn` that fails leaves. -/
theorem Conn.sendFn_error {before after : Conn} {data : Bytes} {reason : NetFailure}
    (call : before.sendFn data = (.error reason, after)) : before.Accepts [] after := by
  rw [Conn.sendFn] at call
  split at call
  · cases call
    exact .nil _
  · rename_i failure sendEvents events
    cases call
    exact ⟨[.failure reason], by rw [List.append_nil], events⟩
  · rename_i limit sendEvents events
    split at call
    · cases call
      exact ⟨[.upTo limit], by rw [List.append_nil], events⟩
    · cases call

theorem Conn.NeverBreaks.sendFn {before after : Conn} {data : Bytes} (clean : before.NeverBreaks)
    (some : data ≠ []) : before.sendFn data ≠ (.error .error, after) := by
  intro call
  rw [Conn.sendFn] at call
  split at call
  · rw [clean.1] at call
    cases call
  · rename_i failure sendEvents events
    cases call
    exact clean.2 (events ▸ List.mem_cons_self)
  · rw [if_neg some] at call
    cases call

/-- What a loop that sends a buffer did: it sent some bytes from the offset on, and all of them if it
ran to its end. -/
structure Sent (data : Bytes) (connection : Conn) (offset : Nat) (outcome : SendOutcome) : Prop where
  later : offset ≤ outcome.offset
  within : outcome.offset ≤ data.length
  accepts : connection.Accepts ((data.drop offset).take (outcome.offset - offset))
    outcome.connection
  complete : outcome.stopped = none → outcome.offset = data.length
  clean : offset < data.length → connection.NeverBreaks → outcome.stopped ≠ some .error

/-- A call of `send_fn` that fails sends nothing. -/
theorem sent_of_error {connection after : Conn} {data : Bytes} {offset : Nat} {reason : NetFailure}
    (within : offset ≤ data.length)
    (call : connection.sendFn (data.drop offset) = (.error reason, after)) :
    Sent data connection offset ⟨some reason, after, offset⟩ where
  later := le_refl _
  within := within
  accepts := by
    rw [Nat.sub_self, List.take_zero]
    exact Conn.sendFn_error call
  complete := by simp
  clean := by
    rintro unfinished harmless equal
    cases equal
    refine harmless.sendFn ?_ call
    rw [← List.length_pos_iff, List.length_drop]
    omega

/-- A call of `send_fn` that takes bytes, and what the loop does after it. -/
theorem sent_of_ok {connection after : Conn} {data : Bytes} {offset sent : Nat}
    {outcome : SendOutcome} (call : connection.sendFn (data.drop offset) = (.ok sent, after))
    (next : Sent data after (offset + sent) outcome) (finished : offset + sent = data.length →
      outcome.stopped ≠ some .error) : Sent data connection offset outcome := by
  obtain ⟨_, room, accepts, _⟩ := Conn.sendFn_ok call
  rw [List.length_drop] at room
  have later := next.later
  have within := next.within
  refine ⟨by omega, within, ?_, next.complete, fun unfinished harmless => ?_⟩
  · have joined := accepts.trans next.accepts
    rw [← List.drop_drop, ← List.take_add] at joined
    have length : sent + (outcome.offset - (offset + sent)) = outcome.offset - offset := by
      omega
    rwa [length] at joined
  · by_cases more : offset + sent < data.length
    · exact next.clean more (accepts.neverBreaks harmless)
    · exact finished (by omega)

theorem sendTurns_sent (data : Bytes) (turns : Nat) (connection : Conn) (offset : Nat)
    (enough : connection.sendEvents.length < turns) (within : offset ≤ data.length) :
    Sent data connection offset (sendTurns data turns connection offset) ∧
      (offset = data.length → (sendTurns data turns connection offset).stopped = none) := by
  induction turns generalizing connection offset with
  | zero => omega
  | succ turns inductionHypothesis =>
    rw [sendTurns]
    by_cases unfinished : offset < data.length
    · rw [if_pos unfinished]
      refine ⟨?_, fun finished => absurd finished (by omega)⟩
      rcases call : connection.sendFn (data.drop offset) with ⟨answer, after⟩
      cases answer with
      | error reason => exact sent_of_error within call
      | ok sent =>
        obtain ⟨positive, room, accepts, fewer⟩ := Conn.sendFn_ok call
        rw [List.length_drop] at room
        obtain ⟨next, finished⟩ := inductionHypothesis after (offset + sent) (by omega) (by omega)
        exact sent_of_ok call next fun last => by simp [finished last]
    · rw [if_neg unfinished]
      refine ⟨⟨le_refl _, within, ?_, fun _ => ?_, fun _ _ => by simp⟩, fun _ => rfl⟩
      · rw [Nat.sub_self, List.take_zero]
        exact .nil connection
      · exact le_antisymm within (not_lt.mp unfinished)

theorem sendWhile_sent (data : Bytes) (connection : Conn) (offset : Nat)
    (within : offset ≤ data.length) : Sent data connection offset (sendWhile data connection offset) :=
  (sendTurns_sent data _ connection offset (Nat.lt_succ_self _) within).1

/-- The same of a loop that tests at its end. -/
theorem sendDoWhile_sent (data : Bytes) (connection : Conn) (offset : Nat)
    (within : offset ≤ data.length) :
    Sent data connection offset (sendDoWhile data connection offset) := by
  rw [sendDoWhile]
  rcases call : connection.sendFn (data.drop offset) with ⟨answer, after⟩
  cases answer with
  | error reason => exact sent_of_error within call
  | ok sent =>
    obtain ⟨_, room, _, _⟩ := Conn.sendFn_ok call
    rw [List.length_drop] at room
    obtain ⟨next, finished⟩ := sendTurns_sent data (after.sendEvents.length + 1) after
      (offset + sent) (Nat.lt_succ_self _) (by omega)
    exact sent_of_ok call next fun last => by simp [sendWhile, finished last]

end Lwmsg
