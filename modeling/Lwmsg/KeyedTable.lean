/-
This file is about a table with at most one record for a key, from which records are removed by
their keys alone. An agent that found a record outdated removes it later, when another record may
have its key. A pinned record is one that stays until its key is removed on purpose.

`KeyedTable` says what the operations do to the keys. The rules are for runs of any length: which
steps let every removal take the record it is meant for, and which steps keep a pinned record in
its place.
-/

import Lwmsg.Traced
import Mathlib.Logic.Function.Basic

namespace Lwmsg

variable {Key : Type} [DecidableEq Key]

/-- What is told apart of a record. -/
structure KeyedRecord (Key : Type) where
  key : Key
  pinned : Bool
  deriving DecidableEq, Repr

/-- All records that were made, the place of the record of a key, and the places of the records
that agents are about to remove. -/
structure KeyedTable (Key : Type) where
  records : List (KeyedRecord Key)
  table : Key → Option Nat
  removing : Nat → Option Nat

inductive KeyedAction (Key : Type)
  | keep
  | insert (key : Key) (pinned : Bool)
  | remove (key : Key)
  | condemn (agent place : Nat)
  | removeFound (agent : Nat)
  deriving DecidableEq, Repr

namespace KeyedTable

/-- What an action does. An insertion is refused if there is a record of the key. -/
def apply (keyed : KeyedTable Key) : KeyedAction Key → KeyedTable Key
  | .keep => keyed
  | .insert key pinned =>
    match keyed.table key with
    | some _ => keyed
    | none =>
      { keyed with
        records := keyed.records ++ [⟨key, pinned⟩]
        table := Function.update keyed.table key (some keyed.records.length) }
  | .remove key => { keyed with table := Function.update keyed.table key none }
  | .condemn agent place => { keyed with removing := Function.update keyed.removing agent place }
  | .removeFound agent =>
    match (keyed.removing agent).bind (keyed.records[·]?) with
    | none => keyed
    | some record =>
      { keyed with
        table := Function.update keyed.table record.key none
        removing := Function.update keyed.removing agent none }

/-- Every action can be taken. -/
def act (keyed : KeyedTable Key) (action : KeyedAction Key) : Option (KeyedTable Key) :=
  some (keyed.apply action)

/-- The table of nothing. -/
def empty : KeyedTable Key := ⟨[], fun _ => none, fun _ => none⟩

/-- The record of a key. -/
def record? (keyed : KeyedTable Key) (key : Key) : Option (KeyedRecord Key) :=
  (keyed.table key).bind (keyed.records[·]?)

/-- An agent is about to remove a record of the key. -/
def Condemned (keyed : KeyedTable Key) (key : Key) : Prop :=
  ∃ agent place record, keyed.removing agent = some place ∧
    keyed.records[place]? = some record ∧ record.key = key

/-! ### Places -/

/-- The record in the place of a key has that key. -/
def Sound (keyed : KeyedTable Key) : Prop :=
  ∀ key place, keyed.table key = some place →
    ∃ record, keyed.records[place]? = some record ∧ record.key = key

omit [DecidableEq Key] in
theorem sound_empty : (empty : KeyedTable Key).Sound := by
  intro key place there
  cases there

theorem Sound.forget {keyed : KeyedTable Key} (sound : keyed.Sound) (key : Key) :
    ∀ other place, Function.update keyed.table key none other = some place →
      ∃ record, keyed.records[place]? = some record ∧ record.key = other := by
  intro other place there
  by_cases same : other = key
  · subst same
    rw [Function.update_self] at there
    cases there
  · rw [Function.update_of_ne same] at there
    exact sound other place there

omit [DecidableEq Key] in
theorem getElem?_append_of_some {records : List (KeyedRecord Key)} {place : Nat}
    {record : KeyedRecord Key} (there : records[place]? = some record)
    (more : List (KeyedRecord Key)) : (records ++ more)[place]? = some record := by
  rw [List.getElem?_append_left (List.getElem?_eq_some_iff.mp there).1, there]

theorem Sound.apply {keyed : KeyedTable Key} (sound : keyed.Sound) (action : KeyedAction Key) :
    (keyed.apply action).Sound := by
  cases action with
  | keep => exact sound
  | insert key pinned =>
    rw [KeyedTable.apply]
    split
    · exact sound
    · intro other place there
      by_cases same : other = key
      · subst same
        simp only [Function.update_self, Option.some.injEq] at there
        subst there
        exact ⟨⟨other, pinned⟩, by simp, rfl⟩
      · simp only [Function.update_of_ne same] at there
        obtain ⟨record, found, named⟩ := sound other place there
        exact ⟨record, getElem?_append_of_some found _, named⟩
  | remove key => exact sound.forget key
  | condemn agent place => exact sound
  | removeFound agent =>
    rw [KeyedTable.apply]
    split
    · exact sound
    · exact sound.forget _

/-- Records stay where they are. -/
theorem records_prefix (keyed : KeyedTable Key) (action : KeyedAction Key) :
    keyed.records <+: (keyed.apply action).records := by
  cases action with
  | insert key pinned =>
    rw [KeyedTable.apply]
    split
    · exact List.prefix_rfl
    · exact List.prefix_append _ _
  | removeFound agent =>
    rw [KeyedTable.apply]
    split
    · exact List.prefix_rfl
    · exact List.prefix_rfl
  | keep => exact List.prefix_rfl
  | remove key => exact List.prefix_rfl
  | condemn agent place => exact List.prefix_rfl

/-! ### Removals that take what they are meant for -/

/-- Every removal that an agent is about to make takes nothing but the record it found. -/
def OwnRemovals (keyed : KeyedTable Key) : Prop :=
  ∀ agent place record other, keyed.removing agent = some place →
    keyed.records[place]? = some record → keyed.table record.key = some other → other = place

/-- No record is inserted under a key while an agent is about to remove another record of that
key, and no agent sets out to remove a record that another one has replaced. -/
def ReplacesSafely (keyed : KeyedTable Key) : KeyedAction Key → Prop
  | .insert key _ => keyed.table key = none → ¬ keyed.Condemned key
  | .condemn _ place => ∀ record other, keyed.records[place]? = some record →
    keyed.table record.key = some other → other = place
  | .keep | .remove _ | .removeFound _ => True

omit [DecidableEq Key] in
theorem ownRemovals_empty : (empty : KeyedTable Key).OwnRemovals := by
  intro agent place record other about
  cases about

theorem OwnRemovals.forget {keyed : KeyedTable Key} (own : keyed.OwnRemovals) (key : Key)
    {agent place other : Nat} {record : KeyedRecord Key} (about : keyed.removing agent = some place)
    (found : keyed.records[place]? = some record)
    (there : Function.update keyed.table key none record.key = some other) : other = place := by
  by_cases same : record.key = key
  · rw [same, Function.update_self] at there
    cases there
  · rw [Function.update_of_ne same] at there
    exact own agent place record other about found there

/-- The places of removals lie among the records. -/
def RemovesRecords (keyed : KeyedTable Key) : Prop :=
  ∀ agent place, keyed.removing agent = some place → place < keyed.records.length

theorem ownRemovals_insert_iff {keyed : KeyedTable Key} (own : keyed.OwnRemovals)
    (within : keyed.RemovesRecords) (key : Key) (pinned : Bool) :
    (keyed.apply (.insert key pinned)).OwnRemovals ↔ keyed.ReplacesSafely (.insert key pinned) := by
  cases held : keyed.table key with
  | some place =>
    rw [KeyedTable.apply, held]
    exact iff_of_true own fun missing => by rw [held] at missing; cases missing
  | none =>
    rw [KeyedTable.apply, held]
    constructor
    · rintro after - ⟨agent, place, record, about, found, rfl⟩
      have now := after agent place record keyed.records.length about
        (getElem?_append_of_some found _) (Function.update_self _ _ _)
      have bound := within agent place about
      omega
    · intro safe agent place record other about found there
      have bound := within agent place about
      have old : keyed.records[place]? = some record := by
        rw [← found]
        exact (List.getElem?_append_left bound).symm
      by_cases same : record.key = key
      · exact absurd ⟨agent, place, record, about, old, same⟩ (safe held)
      · simp only [Function.update_of_ne same] at there
        exact own agent place record other about old there

theorem ownRemovals_condemn_iff {keyed : KeyedTable Key} (own : keyed.OwnRemovals)
    (agent place : Nat) :
    (keyed.apply (.condemn agent place)).OwnRemovals ↔
      keyed.ReplacesSafely (.condemn agent place) := by
  constructor
  · intro after record other found there
    exact after agent place record other (Function.update_self _ _ _) found there
  · intro safe other position record held about found there
    by_cases same : other = agent
    · subst same
      simp only [KeyedTable.apply, Function.update_self, Option.some.injEq] at about
      subst about
      exact safe record held found there
    · simp only [KeyedTable.apply, Function.update_of_ne same] at about
      exact own other position record held about found there

theorem ownRemovals_removeFound {keyed : KeyedTable Key} (own : keyed.OwnRemovals) (agent : Nat) :
    (keyed.apply (.removeFound agent)).OwnRemovals := by
  rw [KeyedTable.apply]
  split
  · exact own
  · intro other position record held about found there
    by_cases same : other = agent
    · subst same
      simp only [Function.update_self] at about
      cases about
    · simp only [Function.update_of_ne same] at about
      exact own.forget _ about found there

/-- A step lets all removals take what they are meant for exactly if it replaces safely. -/
theorem ownRemovals_apply_iff {keyed : KeyedTable Key} (own : keyed.OwnRemovals)
    (within : keyed.RemovesRecords) (action : KeyedAction Key) :
    (keyed.apply action).OwnRemovals ↔ keyed.ReplacesSafely action := by
  cases action with
  | keep => exact iff_of_true own trivial
  | insert key pinned => exact ownRemovals_insert_iff own within key pinned
  | remove key =>
    exact iff_of_true (fun agent place record other about found there =>
      own.forget key about found there) trivial
  | condemn agent place => exact ownRemovals_condemn_iff own agent place
  | removeFound agent => exact iff_of_true (ownRemovals_removeFound own agent) trivial

/-- An agent sets out to remove a record that exists. -/
def CondemnsRecord (keyed : KeyedTable Key) : KeyedAction Key → Prop
  | .condemn _ place => place < keyed.records.length
  | .keep | .insert _ _ | .remove _ | .removeFound _ => True

theorem RemovesRecords.apply {keyed : KeyedTable Key} (within : keyed.RemovesRecords)
    {action : KeyedAction Key} (exists_ : keyed.CondemnsRecord action) :
    (keyed.apply action).RemovesRecords := by
  have grown := (keyed.records_prefix action).length_le
  intro agent place about
  have old : keyed.removing agent = some place → place < (keyed.apply action).records.length :=
    fun before => (within agent place before).trans_le grown
  cases action with
  | keep => exact old about
  | insert key pinned =>
    refine old ?_
    rw [KeyedTable.apply] at about
    split at about
    · exact about
    · exact about
  | remove key => exact old about
  | condemn other position =>
    by_cases same : agent = other
    · subst same
      simp only [KeyedTable.apply, Function.update_self, Option.some.injEq] at about
      subst about
      exact Nat.lt_of_lt_of_le exists_ grown
    · simp only [KeyedTable.apply, Function.update_of_ne same] at about
      exact old about
  | removeFound other =>
    refine old ?_
    rw [KeyedTable.apply] at about
    split at about
    · exact about
    · by_cases same : agent = other
      · subst same
        simp only [Function.update_self] at about
        cases about
      · simpa only [Function.update_of_ne same] using about

/-- In a run, every removal an agent is about to make takes nothing but the record it found, in
every state, exactly if every step replaces safely. -/
theorem ownRemovals_iff {history : List (KeyedTable Key × KeyedAction Key)} {keyed : KeyedTable Key}
    (run : Traced act empty history keyed)
    (exist : ∀ visited ∈ history, visited.1.CondemnsRecord visited.2) :
    ((∀ visited ∈ history, visited.1.OwnRemovals) ∧ keyed.OwnRemovals) ↔
      ∀ visited ∈ history, visited.1.ReplacesSafely visited.2 := by
  have within : keyed.RemovesRecords := by
    refine run.invariant (fun agent place about => by cases about) ?_
    intro visited member before next taken
    obtain rfl := Option.some.inj taken
    exact before.apply (exist visited member)
  induction run with
  | start => simp [ownRemovals_empty]
  | @step history state next action run taken inductionHypothesis =>
    obtain rfl := Option.some.inj taken
    have stateWithin : state.RemovesRecords := by
      refine run.invariant (fun agent place about => by cases about) ?_
      intro visited member before next taken
      obtain rfl := Option.some.inj taken
      exact before.apply (exist visited (List.mem_append_left _ member))
    have shorter := inductionHypothesis
      (fun visited member => exist visited (List.mem_append_left _ member)) stateWithin
    simp only [List.forall_mem_append, List.forall_mem_singleton]
    constructor
    · rintro ⟨⟨visited, now⟩, after⟩
      exact ⟨shorter.mp ⟨visited, now⟩, (ownRemovals_apply_iff now stateWithin action).mp after⟩
    · rintro ⟨safe, last⟩
      obtain ⟨visited, now⟩ := shorter.mpr safe
      exact ⟨⟨visited, now⟩, (ownRemovals_apply_iff now stateWithin action).mpr last⟩

/-! ### Pinned records -/

/-- The key has a pinned record that no agent is about to remove. -/
def Pinned (keyed : KeyedTable Key) (key : Key) : Prop :=
  keyed.record? key = some ⟨key, true⟩ ∧ ¬ keyed.Condemned key

/-- A record is pinned under a key only where the key has no other record and no agent is about to
remove one, and no agent sets out to remove a record of a key that has a pinned one. -/
def PinsSafely (key : Key) (keyed : KeyedTable Key) : KeyedAction Key → Prop
  | .insert other true => other = key →
    (keyed.table key = none ∨ keyed.record? key = some ⟨key, true⟩) ∧ ¬ keyed.Condemned key
  | .condemn _ place => keyed.record? key = some ⟨key, true⟩ →
    ∀ record, keyed.records[place]? = some record → record.key ≠ key
  | .insert _ false | .keep | .remove _ | .removeFound _ => True

/-- Whether a pinned record is ordered under the key after an action. -/
def pinOrder (key : Key) (ordered : Bool) : KeyedAction Key → Bool
  | .insert other true => ordered || other = key
  | .remove other => ordered && other ≠ key
  | .insert _ false | .keep | .condemn _ _ | .removeFound _ => ordered

/-- The last action on purpose pinned a record under the key. -/
def pinOrdered (key : Key) (actions : List (KeyedAction Key)) : Bool :=
  actions.foldl (pinOrder key) false

theorem record?_update_of_ne {keyed : KeyedTable Key} {key other : Key} (ne : key ≠ other)
    (place : Option Nat) (removing : Nat → Option Nat) :
    record? ⟨keyed.records, Function.update keyed.table other place, removing⟩ key =
      keyed.record? key := by
  simp only [record?, Function.update_of_ne ne]

/-- A pinned record that no agent is about to remove stays, and none will be. -/
theorem Pinned.apply {keyed : KeyedTable Key} {key : Key} (pinned : keyed.Pinned key)
    {action : KeyedAction Key} (safe : keyed.PinsSafely key action) (kept : action ≠ .remove key) :
    (keyed.apply action).Pinned key := by
  obtain ⟨held, free⟩ := pinned
  obtain ⟨place, there, found⟩ := Option.bind_eq_some_iff.mp held
  cases action with
  | keep => exact ⟨held, free⟩
  | insert other pin =>
    rw [KeyedTable.apply]
    split
    · exact ⟨held, free⟩
    · rename_i missing
      have ne : key ≠ other := by
        rintro rfl
        rw [there] at missing
        cases missing
      constructor
      · simp only [record?, Function.update_of_ne ne, there]
        exact getElem?_append_of_some found _
      · rintro ⟨agent, position, record, about, there', rfl⟩
        by_cases bound : position < keyed.records.length
        · rw [List.getElem?_append_left bound] at there'
          exact free ⟨agent, position, record, about, there', rfl⟩
        · rw [List.getElem?_append_right (Nat.le_of_not_lt bound)] at there'
          obtain rfl := List.mem_singleton.mp (List.mem_of_getElem? there')
          exact ne rfl
  | remove other =>
    have ne : key ≠ other := fun same => kept (same ▸ rfl)
    exact ⟨(record?_update_of_ne ne none keyed.removing).trans held, free⟩
  | condemn agent position =>
    refine ⟨held, ?_⟩
    rintro ⟨other, spot, record, about, there', same⟩
    by_cases equal : other = agent
    · subst equal
      simp only [KeyedTable.apply, Function.update_self, Option.some.injEq] at about
      subst about
      exact safe held record there' same
    · simp only [KeyedTable.apply, Function.update_of_ne equal] at about
      exact free ⟨other, spot, record, about, there', same⟩
  | removeFound agent =>
    rw [KeyedTable.apply]
    split
    · exact ⟨held, free⟩
    · rename_i record about
      obtain ⟨position, removes, there'⟩ := Option.bind_eq_some_iff.mp about
      have ne : key ≠ record.key := fun same =>
        free ⟨agent, position, record, removes, there', same.symm⟩
      refine ⟨(record?_update_of_ne ne none _).trans held, ?_⟩
      rintro ⟨other, spot, found', about', there'', same⟩
      by_cases equal : other = agent
      · subst equal
        simp only [Function.update_self] at about'
        cases about'
      · simp only [Function.update_of_ne equal] at about'
        exact free ⟨other, spot, found', about', there'', same⟩

/-- A record that is pinned safely is there afterwards. -/
theorem pinned_insert {keyed : KeyedTable Key} {key : Key} (within : keyed.RemovesRecords)
    (safe : keyed.PinsSafely key (.insert key true)) :
    (keyed.apply (.insert key true)).Pinned key := by
  obtain ⟨missing | held, free⟩ := safe rfl
  · rw [KeyedTable.apply, missing]
    constructor
    · simp [record?]
    · rintro ⟨agent, place, record, about, found, same⟩
      rw [List.getElem?_append_left (within agent place about)] at found
      exact free ⟨agent, place, record, about, found, same⟩
  · obtain ⟨place, there, _⟩ := Option.bind_eq_some_iff.mp held
    rw [KeyedTable.apply, there]
    exact ⟨held, free⟩

/-- In a run that pins safely, a key has its pinned record from the action that ordered it until
the action that removes it. -/
theorem pinned_of_pinOrdered {history : List (KeyedTable Key × KeyedAction Key)}
    {keyed : KeyedTable Key} {key : Key} (run : Traced act empty history keyed)
    (exist : ∀ visited ∈ history, visited.1.CondemnsRecord visited.2)
    (safe : ∀ visited ∈ history, visited.1.PinsSafely key visited.2)
    (ordered : pinOrdered key (history.map Prod.snd) = true) : keyed.Pinned key := by
  induction run with
  | start => simp [pinOrdered] at ordered
  | @step history state next action run taken inductionHypothesis =>
    obtain rfl := Option.some.inj taken
    rw [List.forall_mem_append, List.forall_mem_singleton] at safe exist
    have before : pinOrdered key (history.map Prod.snd) = true → state.Pinned key :=
      inductionHypothesis exist.1 safe.1
    have last : pinOrder key (pinOrdered key (history.map Prod.snd)) action = true := by
      rw [pinOrdered, List.map_append, List.foldl_append] at ordered
      exact ordered
    match action, last, safe.2 with
    | .keep, ordered, safe => exact (before ordered).apply safe (by simp)
    | .insert other false, ordered, safe => exact (before ordered).apply safe (by simp)
    | .condemn agent place, ordered, safe => exact (before ordered).apply safe (by simp)
    | .removeFound agent, ordered, safe => exact (before ordered).apply safe (by simp)
    | .remove other, ordered, safe =>
      simp only [pinOrder, Bool.and_eq_true, decide_eq_true_eq] at ordered
      refine (before ordered.1).apply safe fun same => ordered.2 ?_
      cases same
      rfl
    | .insert other true, ordered, safe =>
      by_cases same : other = key
      · subst same
        have within : state.RemovesRecords := by
          refine run.invariant (fun agent place about => by cases about) ?_
          intro visited member good next taken
          obtain rfl := Option.some.inj taken
          exact good.apply (exist.1 visited member)
        exact pinned_insert within safe
      · simp only [pinOrder, same, decide_false, Bool.or_false] at ordered
        exact (before ordered).apply safe (by simp)

/-- Where a record was in a state of a run, it still is at the end. -/
theorem getElem?_later {history : List (KeyedTable Key × KeyedAction Key)}
    {start keyed : KeyedTable Key} (run : Traced act start history keyed)
    {visited : KeyedTable Key × KeyedAction Key} (member : visited ∈ history) {place : Nat}
    {record : KeyedRecord Key} (there : visited.1.records[place]? = some record) :
    keyed.records[place]? = some record := by
  induction run with
  | start => cases member
  | @step history state next action run taken inductionHypothesis =>
    obtain rfl := Option.some.inj taken
    have now : state.records[place]? = some record := by
      rcases List.mem_append.mp member with old | new
      · exact inductionHypothesis old
      · rw [List.mem_singleton.mp new] at there
        exact there
    obtain ⟨more, grown⟩ := state.records_prefix action
    rw [← grown]
    exact getElem?_append_of_some now more

/-- Who looks up a key while a pinned record of it is ordered finds that record, and it stays in its
place. -/
theorem pinned_lookup {history earlier later : List (KeyedTable Key × KeyedAction Key)}
    {keyed here : KeyedTable Key} {action : KeyedAction Key} {key : Key}
    (run : Traced act empty history keyed)
    (exist : ∀ visited ∈ history, visited.1.CondemnsRecord visited.2)
    (safe : ∀ visited ∈ history, visited.1.PinsSafely key visited.2)
    (split : history = earlier ++ (here, action) :: later)
    (ordered : pinOrdered key (earlier.map Prod.snd) = true) :
    ∃ place, here.table key = some place ∧
      ∀ visited ∈ later, visited.1.records[place]? = some ⟨key, true⟩ := by
  have inside : ∀ visited ∈ earlier, visited ∈ history := fun visited member =>
    split ▸ List.mem_append_left _ member
  have pinned : here.Pinned key := pinned_of_pinOrdered (run.before split)
    (fun visited member => exist visited (inside visited member))
    (fun visited member => safe visited (inside visited member)) ordered
  obtain ⟨place, there, found⟩ := Option.bind_eq_some_iff.mp pinned.1
  refine ⟨place, there, fun visited member => ?_⟩
  obtain ⟨middle, rest, rfl⟩ := List.append_of_mem member
  have longer : history = (earlier ++ (here, action) :: middle) ++ visited :: rest := by
    rw [split, List.append_assoc, List.cons_append]
  have seen : (here, action) ∈ earlier ++ (here, action) :: middle := by simp
  exact getElem?_later (run.before longer) seen found

end KeyedTable

end Lwmsg
