/-
This file proves which calls of `htable_resize` that end without a rehash have changed nothing, for
every table that the assertions of `htable_create` admit and every pattern of failing calls.

The size and the threshold are written before the allocations they describe. Where `bucket_count`
overflows, only the size is put back. Where an allocation fails, both are, unless the buckets were
given back to `realloc` and it failed once more.
-/

import Lwmsg.HtableMap

namespace Lwmsg

open Bytes Pointers SinglyLinked

/-! ### Tables -/

/-- A table between two calls, with its members, their keys and the lists in its buckets. The array
of its buckets was allocated, so that its size in bytes fits 64 bits. -/
structure TableState (cmpfn : CmpFunc) (valid : Bytes → Prop) (key : Addr → Bytes)
    (members : Finset Addr) (power : Nat) (state : HtableState) (lists : Nat → List Addr) : Prop where
  rehashable : Rehashable cmpfn valid key members power state lists
  placed : ∀ index < 2 ^ power, ∀ addr,
    addr ∈ lists index ↔ addr ∈ members ∧ index = bucketOf (2 ^ power) (key addr)
  allocated : power < 61
  resizePos : 1 ≤ state.htable.htablePow2ResizeFactor
  resizeLt : state.htable.htablePow2ResizeFactor < 64
  lockFits : state.htable.bucketsPerLockPow2 ≤ power
  lockCount : state.htable.lockCount = 2 ^ (power - state.htable.bucketsPerLockPow2)
  threshold : state.htable.resizeThresElemCount =
    cThresElem state.htable.thresholdLoadFactor (2 ^ power)

section Tables

variable {cmpfn : CmpFunc} {valid : Bytes → Prop} {key : Addr → Bytes} {members : Finset Addr}
  {power : Nat} {state : HtableState} {lists : Nat → List Addr}

/-- The tables of every run within the ranges of the configuration are such tables. -/
theorem TableInvariant.tableState
    (invariant : TableInvariant cmpfn valid key members power state lists) :
    TableState cmpfn valid key members power state lists := by
  obtain ⟨rehashable, placed, params, size, _⟩ := invariant
  have bounded := size.bounded
  have atLeast := Nat.le_mul_of_pos_right (2 ^ power) params.thresholdPos
  refine ⟨rehashable, placed, ?_, params.resizePos, ?_, size.lockFits, size.lockCount, ?_⟩
  · have below : 2 ^ power < 2 ^ 61 := by omega
    exact (Nat.pow_lt_pow_iff_right (by decide)).mp below
  · exact params.resizeLe.trans_lt (by decide)
  · rw [size.threshold, cThresElem, Nat.mod_eq_of_lt (by omega)]

/-- So is every table that `htable_create` makes. -/
theorem htableCreate_tableState {size expansion load locks : Nat} {htable : StripedHtable}
    (created : htableCreate size expansion load locks cmpfn = some htable) (allocated : size < 61)
    (memory : Memory Node) :
    TableState cmpfn valid key ∅ size ⟨memory, htable⟩ fun _ => [] := by
  have table : CreatedTable cmpfn valid key size expansion load locks ⟨memory, htable⟩ :=
    htableCreate_created created memory
  refine ⟨table.rehashable, fun _ _ _ => by simp, allocated, ?_, ?_, ?_, ?_, ?_⟩
  · exact table.resizeFactor ▸ table.resizePos
  · exact table.resizeFactor ▸ table.resizeLt
  · exact table.bucketsPerLock ▸ table.lockFits
  · exact table.bucketsPerLock ▸ table.lockCount
  · exact table.thresholdLoadFactor ▸ table.threshold

/-- A key of the table is found. -/
theorem TableState.found (table : TableState cmpfn valid key members power state lists)
    (order : KeyOrder cmpfn valid) {addr : Addr} (member : addr ∈ members) (refInc : Bool) :
    ∃ after, htableGet state (key addr) refInc = some (some addr, after) := by
  have inside := bucketOf_lt power (key addr)
  have insideTable : bucketOf (2 ^ power) (key addr) < state.htable.bucketCount :=
    table.rehashable.bucketCount ▸ inside
  have listed := (table.placed _ inside addr).mpr ⟨member, rfl⟩
  obtain ⟨_, live, _, keyValid⟩ := table.rehashable.buckets.live _ insideTable addr listed
  obtain ⟨prev, found, hashed, search, result⟩ := table.rehashable.seek order table.placed keyValid
  have located : found = some addr := by
    rcases result with ⟨_, noKey⟩ | ⟨_, target, _, isTarget, _, targetMember, sameKey, _⟩
    · exact absurd rfl (noKey addr member)
    · rw [isTarget, table.rehashable.distinctKeys target targetMember addr member sameKey]
  unfold htableGet
  simp only [hashed, lockOf_inside table.lockFits table.lockCount inside, search, located,
    Option.bind_eq_bind, Option.bind_some]
  cases refInc with
  | false => exact ⟨state, rfl⟩
  | true =>
    simp only [if_true, nodeGet, store_of_live live, Option.bind_some]
    exact ⟨_, rfl⟩

end Tables

/-! ### Growing -/

/-- The table at another size, with the threshold of that size. -/
def atPower (htable : StripedHtable) (power : Nat) : StripedHtable :=
  { htable with
    bucketCount := 2 ^ power
    resizeThresElemCount := cThresElem htable.thresholdLoadFactor (2 ^ power) }

/-- The table has too many elements for the size it reaches after some turns. -/
def StillFull (htable : StripedHtable) (power turns : Nat) : Prop :=
  cThresElem htable.thresholdLoadFactor (2 ^ (power + turns * htable.htablePow2ResizeFactor)) ≤
    htable.elementCount

instance (htable : StripedHtable) (power turns : Nat) : Decidable (StillFull htable power turns) :=
  inferInstanceAs (Decidable (_ ≤ _))

/-- The table has too many elements for every size before `bucket_count` overflows. -/
def Overflows (htable : StripedHtable) (power : Nat) : Prop :=
  ∀ turns, power + turns * htable.htablePow2ResizeFactor < 64 → StillFull htable power turns

/-- The last size before `bucket_count` overflows. -/
def lastPower (htable : StripedHtable) (power : Nat) : Nat :=
  power + (63 - power) / htable.htablePow2ResizeFactor * htable.htablePow2ResizeFactor

section Growing

variable {htable : StripedHtable} {power : Nat}

theorem stillFull_zero :
    StillFull htable power 0 ↔
      cThresElem htable.thresholdLoadFactor (2 ^ power) ≤ htable.elementCount := by
  rw [StillFull, Nat.zero_mul, Nat.add_zero]

theorem stillFull_succ (turns : Nat) :
    StillFull htable power (turns + 1) ↔
      StillFull htable (power + htable.htablePow2ResizeFactor) turns := by
  rw [StillFull, StillFull, Nat.succ_mul, Nat.add_comm (turns * _), Nat.add_assoc]

/-- The last turn before the overflow is this one where the next does not fit. -/
theorem lastPower_of_last (positive : 1 ≤ htable.htablePow2ResizeFactor)
    (next : 64 ≤ power + htable.htablePow2ResizeFactor) :
    lastPower htable power = power := by
  rw [lastPower, Nat.div_eq_of_lt (by omega), Nat.zero_mul, Nat.add_zero]

theorem lastPower_next (positive : 1 ≤ htable.htablePow2ResizeFactor)
    (next : power + htable.htablePow2ResizeFactor < 64) :
    lastPower htable (power + htable.htablePow2ResizeFactor) = lastPower htable power := by
  have less : 63 - power = 63 - (power + htable.htablePow2ResizeFactor) +
      htable.htablePow2ResizeFactor := by omega
  rw [lastPower, lastPower, less, Nat.add_div_right _ positive, Nat.succ_mul]
  omega

/-- The shift of a number of buckets, which is 0 where it does not fit. -/
theorem shifted_power {shift : Nat} :
    (2 ^ power <<< shift) % 2 ^ 64 = if power + shift < 64 then 2 ^ (power + shift) else 0 := by
  rw [Nat.shiftLeft_eq, ← Nat.pow_add]
  split_ifs with fits
  · exact Nat.mod_eq_of_lt (Nat.pow_lt_pow_right (by decide) fits)
  · exact Nat.mod_eq_zero_of_dvd (Nat.pow_dvd_pow 2 (Nat.le_of_not_lt fits))

/-- The loop that chooses the size ends at the first one that is large enough, or it leaves the
threshold of the last one before the overflow. -/
theorem htableGrow_atPower {fuel oldPower resizeCount : Nat}
    (positive : 1 ≤ htable.htablePow2ResizeFactor) (fits : power < 64) (older : oldPower ≤ power)
    (enough : 65 ≤ fuel + power) (noWrap : resizeCount + 64 ≤ 255 + power) :
    (∃ turns, power + turns * htable.htablePow2ResizeFactor < 64 ∧
      ¬ StillFull htable power turns ∧ (StillFull htable power 0 ↔ turns ≠ 0) ∧
      htableGrow fuel (atPower htable power) (2 ^ oldPower) resizeCount =
        some (atPower htable (power + turns * htable.htablePow2ResizeFactor),
          some (resizeCount + turns))) ∨
    Overflows htable power ∧
      htableGrow fuel (atPower htable power) (2 ^ oldPower) resizeCount =
        some ({ atPower htable (lastPower htable power) with bucketCount := 2 ^ oldPower }, none) := by
  induction fuel generalizing power resizeCount with
  | zero => omega
  | succ fuel inductionHypothesis =>
    have step : htableGrow (fuel + 1) (atPower htable power) (2 ^ oldPower) resizeCount =
        if StillFull htable power 0 then
          if (2 ^ power <<< htable.htablePow2ResizeFactor) % 2 ^ 64 < 2 ^ oldPower then
            some ({ atPower htable power with bucketCount := 2 ^ oldPower }, none)
          else htableGrow fuel { atPower htable power with
            bucketCount := (2 ^ power <<< htable.htablePow2ResizeFactor) % 2 ^ 64
            resizeThresElemCount := cThresElem htable.thresholdLoadFactor
              ((2 ^ power <<< htable.htablePow2ResizeFactor) % 2 ^ 64) }
            (2 ^ oldPower) ((resizeCount + 1) % 2 ^ 8)
        else some (atPower htable power, some resizeCount) := by
      simp only [stillFull_zero]
      rfl
    by_cases full : StillFull htable power 0
    · rw [if_pos full] at step
      by_cases next : power + htable.htablePow2ResizeFactor < 64
      · have larger : ¬ 2 ^ (power + htable.htablePow2ResizeFactor) < 2 ^ oldPower :=
          Nat.not_lt.mpr (Nat.pow_le_pow_right (by decide) (by omega))
        have counted : (resizeCount + 1) % 2 ^ 8 = resizeCount + 1 := Nat.mod_eq_of_lt (by omega)
        rw [shifted_power, if_pos next, if_neg larger, counted] at step
        rw [step]
        rcases @inductionHypothesis (power + htable.htablePow2ResizeFactor) (resizeCount + 1) next
          (by omega) (by omega) (by omega) with ⟨turns, inside, notFull, _, loop⟩ | ⟨overflows, loop⟩
        · have sum : power + htable.htablePow2ResizeFactor + turns * htable.htablePow2ResizeFactor =
              power + (turns + 1) * htable.htablePow2ResizeFactor := by ring
          rw [sum] at inside loop
          refine Or.inl ⟨turns + 1, inside, ?_, iff_of_true full (Nat.succ_ne_zero turns), ?_⟩
          · rwa [stillFull_succ]
          · rw [show resizeCount + (turns + 1) = resizeCount + 1 + turns by omega]
            exact loop
        · refine Or.inr ⟨fun turns inside => ?_, ?_⟩
          · cases turns with
            | zero => exact full
            | succ turns =>
              rw [stillFull_succ]
              refine overflows turns ?_
              rwa [Nat.succ_mul, Nat.add_comm (turns * _), ← Nat.add_assoc] at inside
          · rw [lastPower_next positive next] at loop
            exact loop
      · rw [shifted_power, if_neg next, if_pos (Nat.two_pow_pos oldPower)] at step
        refine Or.inr ⟨fun turns inside => ?_, ?_⟩
        · cases turns with
          | zero => exact full
          | succ turns =>
            rw [Nat.succ_mul] at inside
            omega
        · rw [lastPower_of_last positive (Nat.le_of_not_lt next)]
          exact step
    · rw [if_neg full] at step
      refine Or.inl ⟨0, ?_, full, iff_of_false full (not_not_intro rfl), ?_⟩
      · rwa [Nat.zero_mul, Nat.add_zero]
      · rw [Nat.zero_mul, Nat.add_zero]
        exact step

end Growing

/-! ### Failing -/

/-- Whether `htable_resize` comes to its rehash: the table grew without an overflow, and neither the
reallocations nor the new locks failed. -/
def rehashes (faults : ResizeFaults) (state : HtableState) : Bool :=
  match htableGrow 65 state.htable state.htable.bucketCount 0 with
  | some (htable, some (_ + 1)) =>
    faults.reallocBuckets && faults.reallocLocks &&
      (List.range (htable.bucketCount >>> htable.bucketsPerLockPow2)).all fun lock =>
        lock < state.htable.lockCount || faults.lockInit lock
  | _ => false

/-- The counters have their values from before, and every key is still found. -/
structure ResizeUndone (key : Addr → Bytes) (members : Finset Addr) (state next : HtableState) :
    Prop where
  bucketCount : next.htable.bucketCount = state.htable.bucketCount
  lockCount : next.htable.lockCount = state.htable.lockCount
  threshold : next.htable.resizeThresElemCount = state.htable.resizeThresElemCount
  found : ∀ addr ∈ members, ∀ refInc, ∃ after,
    htableGet next (key addr) refInc = some (some addr, after)

section Failing

variable {cmpfn : CmpFunc} {valid : Bytes → Prop} {key : Addr → Bytes} {members : Finset Addr}
  {power : Nat} {state next : HtableState} {lists : Nat → List Addr} {faults : ResizeFaults}

theorem TableState.atPower_eq (table : TableState cmpfn valid key members power state lists) :
    atPower state.htable power = state.htable := by
  rw [atPower, ← table.threshold, ← table.rehashable.bucketCount]

/-- A call that changes nothing undoes everything. -/
theorem TableState.undone (table : TableState cmpfn valid key members power state lists)
    (order : KeyOrder cmpfn valid) : ResizeUndone key members state state where
  bucketCount := rfl
  lockCount := rfl
  threshold := rfl
  found _ member refInc := table.found order member refInc

/-- The loop of the resize from a table. -/
theorem TableState.grow (table : TableState cmpfn valid key members power state lists) :
    (∃ turns, power + turns * state.htable.htablePow2ResizeFactor < 64 ∧
      ¬ StillFull state.htable power turns ∧ (StillFull state.htable power 0 ↔ turns ≠ 0) ∧
      htableGrow 65 state.htable state.htable.bucketCount 0 =
        some (atPower state.htable (power + turns * state.htable.htablePow2ResizeFactor),
          some turns)) ∨
    Overflows state.htable power ∧
      htableGrow 65 state.htable state.htable.bucketCount 0 =
        some ({ state.htable with
          resizeThresElemCount :=
            cThresElem state.htable.thresholdLoadFactor (2 ^ lastPower state.htable power) }, none) := by
  have fits := table.allocated
  have loop := @htableGrow_atPower state.htable power 65 power 0 table.resizePos (by omega) le_rfl
    (by omega) (by omega)
  rw [table.atPower_eq, ← table.rehashable.bucketCount] at loop
  simp only [Nat.zero_add] at loop
  exact loop

/-- What is left where an allocation failed after the table grew: the size and the threshold are put
back, unless the buckets could not be made smaller again. -/
theorem htableResize_failed {grown : StripedHtable} {turns : Nat}
    (grow : htableGrow 65 state.htable state.htable.bucketCount 0 = some (grown, some (turns + 1)))
    (sameLocks : grown.lockCount = state.htable.lockCount)
    (returned : htableResize faults state = some next) (failed : rehashes faults state = false) :
    if faults.reallocBuckets = true ∧ faults.shrinkBuckets = false then
      next.htable.bucketCount = grown.bucketCount
    else next = { state with htable := { grown with
      bucketCount := state.htable.bucketCount
      resizeThresElemCount := cThresElem grown.thresholdLoadFactor state.htable.bucketCount } } := by
  unfold htableResize at returned
  unfold rehashes at failed
  simp only [grow, Option.bind_eq_bind, Option.bind_some] at returned failed
  obtain ⟨_, _, returned⟩ := Option.bind_eq_some_iff.mp returned
  cases buckets : faults.reallocBuckets with
  | false =>
    simp only [buckets, Bool.false_eq_true, not_false_eq_true, if_true] at returned
    rw [if_neg (fun both => Bool.false_ne_true both.1)]
    exact (Option.some.inj returned).symm
  | true =>
    have undo : some next = some (if faults.shrinkBuckets = true then
        { state with htable := { grown with
          bucketCount := state.htable.bucketCount
          lockCount := state.htable.lockCount
          resizeThresElemCount := cThresElem grown.thresholdLoadFactor state.htable.bucketCount } }
        else { state with htable := { grown with lockCount := state.htable.lockCount } }) := by
      cases locks : faults.reallocLocks with
      | false =>
        simp only [buckets, locks, Bool.false_eq_true, not_true_eq_false, not_false_eq_true, if_true,
          if_false] at returned
        exact returned.symm
      | true =>
        simp only [buckets, locks, Bool.true_and] at failed
        simp only [buckets, locks, failed, Bool.false_eq_true, not_true_eq_false, if_false] at returned
        cases shrink : faults.shrinkLocks with
        | false =>
          simp only [shrink, Bool.false_eq_true, if_false] at returned
          cases returned
        | true =>
          simp only [shrink, if_true] at returned
          exact returned.symm
    rw [Option.some.inj undo]
    cases shrink : faults.shrinkBuckets with
    | false =>
      rw [if_pos ⟨rfl, rfl⟩, if_neg Bool.false_ne_true]
    | true =>
      rw [if_neg (fun both => Bool.false_ne_true both.2.symm), if_pos rfl, ← sameLocks]

/-- A resize that does not rehash leaves the table as it was, or with the threshold of another size,
or with more buckets than locks for them. -/
theorem failed_resize_outcome (table : TableState cmpfn valid key members power state lists)
    (returned : htableResize faults state = some next) (failed : rehashes faults state = false) :
    Overflows state.htable power ∧ next = { state with htable := { state.htable with
      resizeThresElemCount :=
        cThresElem state.htable.thresholdLoadFactor (2 ^ lastPower state.htable power) } } ∨
    ¬ Overflows state.htable power ∧
      if StillFull state.htable power 0 ∧ faults.reallocBuckets = true ∧
        faults.shrinkBuckets = false then next.htable.bucketCount ≠ state.htable.bucketCount
      else next = state := by
  rcases table.grow with ⟨turns, inside, notFull, full, grow⟩ | ⟨overflows, grow⟩
  · refine Or.inr ⟨fun overflows => notFull (overflows turns inside), ?_⟩
    cases turns with
    | zero =>
      rw [if_neg fun all => full.mp all.1 rfl]
      unfold htableResize at returned
      simp only [grow, Option.bind_eq_bind, Option.bind_some, Nat.zero_mul, Nat.add_zero,
        table.atPower_eq] at returned
      exact (Option.some.inj returned).symm
    | succ turns =>
      have undone := htableResize_failed grow rfl returned failed
      by_cases kept : faults.reallocBuckets = true ∧ faults.shrinkBuckets = false
      · rw [if_pos kept] at undone
        rw [if_pos ⟨full.mpr (Nat.succ_ne_zero turns), kept⟩, undone, table.rehashable.bucketCount]
        have positive : 0 < (turns + 1) * state.htable.htablePow2ResizeFactor :=
          Nat.mul_pos (Nat.succ_pos turns) table.resizePos
        exact (Nat.pow_lt_pow_right (by decide) (Nat.lt_add_of_pos_right positive)).ne'
      · rw [if_neg kept] at undone
        rw [if_neg fun all => kept all.2, undone]
        have threshold := table.threshold
        rw [← table.rehashable.bucketCount] at threshold
        rw [atPower, ← threshold]
  · refine Or.inl ⟨overflows, ?_⟩
    unfold htableResize at returned
    simp only [grow, Option.bind_eq_bind, Option.bind_some] at returned
    exact (Option.some.inj returned).symm

/-- A resize that does not rehash has changed nothing just where the threshold of the last size
before an overflow is the one from before, and where buckets that were reallocated could be made
smaller again. -/
theorem failed_resize_undone_iff (order : KeyOrder cmpfn valid)
    (table : TableState cmpfn valid key members power state lists)
    (returned : htableResize faults state = some next) (failed : rehashes faults state = false) :
    ResizeUndone key members state next ↔
      (Overflows state.htable power →
        cThresElem state.htable.thresholdLoadFactor (2 ^ lastPower state.htable power) =
          state.htable.resizeThresElemCount) ∧
      (¬ Overflows state.htable power →
        state.htable.resizeThresElemCount ≤ state.htable.elementCount →
        faults.reallocBuckets = true → faults.shrinkBuckets = true) := by
  have isFull : state.htable.resizeThresElemCount ≤ state.htable.elementCount ↔
      StillFull state.htable power 0 := by
    rw [stillFull_zero, table.threshold]
  rw [isFull]
  rcases failed_resize_outcome table returned failed with ⟨overflows, same⟩ | ⟨inside, outcome⟩
  · constructor
    · intro undone
      refine ⟨fun _ => ?_, fun fits => absurd overflows fits⟩
      rw [← undone.threshold, same]
    · rintro ⟨threshold, _⟩
      rw [same, threshold overflows]
      exact table.undone order
  · constructor
    · intro undone
      refine ⟨fun overflows => absurd overflows inside, fun _ full buckets => ?_⟩
      by_contra shrink
      rw [if_pos ⟨full, buckets, Bool.eq_false_of_not_eq_true shrink⟩] at outcome
      exact outcome undone.bucketCount
    · rintro ⟨_, shrinks⟩
      rw [if_neg ?_] at outcome
      · rw [outcome]
        exact table.undone order
      · rintro ⟨full, buckets, shrink⟩
        exact Bool.false_ne_true (shrink.symm.trans (shrinks inside full buckets))

end Failing

/-- The nodes of two names. -/
def namedNodes : Memory Node := fun addr =>
  if addr = 1 then some ⟨[97], none, 1⟩ else if addr = 2 then some ⟨[98], none, 1⟩ else none

def namedKeys (addr : Addr) : Bytes := if addr = 1 then [97] else [98]

theorem namedKeys_valid (addr : Addr) : ValidUsername (namedKeys addr) := by
  rw [namedKeys]
  split <;> exact ⟨by decide, by simp, by decide⟩

/-- A table of two buckets with one of them. -/
def oneNamed : HtableState := ((htableAdd .none ⟨namedNodes, smallTable⟩ 1).get rfl).2

/-- The table with both, which grows when another name is added. -/
def twoNamed : HtableState := ((htableAdd .none oneNamed 2).get rfl).2

theorem twoNamed_tableState :
    ∃ power lists, TableState stdClientCmp ValidUsername namedKeys {2, 1} power twoNamed lists := by
  have created := (@htableCreate_invariant .usernames 1 1 100 0 smallTable (by decide) (by decide)
    (by decide) (by decide) rfl namedNodes).table
  have empty := @TableInvariant.congrKey (fun _ => []) namedKeys ∅ 1 (fun _ => []) _ _ _ created
    fun addr member => absurd member (Finset.notMem_empty addr)
  obtain ⟨answer, next, power, lists, call, _, outcome⟩ := htableAdd_spec stdClientCmp_keyOrder empty
    (Finset.notMem_empty 1) rfl rfl (namedKeys_valid 1) (by decide)
  have first : htableAdd .none ⟨namedNodes, smallTable⟩ 1 = some (true, oneNamed) := rfl
  obtain ⟨rfl, rfl⟩ := Prod.mk.inj (Option.some.inj (call.symm.trans first))
  rcases outcome with ⟨wrong, _⟩ | ⟨_, _, one⟩
  · cases wrong
  obtain ⟨answer, next, power, lists, call, _, outcome⟩ := htableAdd_spec stdClientCmp_keyOrder one
    (show 2 ∉ insert 1 ∅ by decide) rfl rfl (namedKeys_valid 2) (by decide)
  have second : htableAdd .none oneNamed 2 = some (true, twoNamed) := rfl
  obtain ⟨rfl, rfl⟩ := Prod.mk.inj (Option.some.inj (call.symm.trans second))
  rcases outcome with ⟨wrong, _⟩ | ⟨_, _, two⟩
  · cases wrong
  exact ⟨power, lists, two.tableState⟩

/-- The locks cannot be reallocated, and the buckets are made smaller again. -/
theorem failed_resize_undone_iff_two_names :
    ∃ next, htableResize ⟨true, false, fun _ => true, true, true⟩ twoNamed = some next ∧
      rehashes ⟨true, false, fun _ => true, true, true⟩ twoNamed = false ∧
      twoNamed.htable.resizeThresElemCount ≤ twoNamed.htable.elementCount ∧
      ResizeUndone namedKeys {2, 1} twoNamed next := by
  obtain ⟨power, lists, table⟩ := twoNamed_tableState
  have failed : rehashes ⟨true, false, fun _ => true, true, true⟩ twoNamed = false := rfl
  refine ⟨_, rfl, failed, by decide,
    (failed_resize_undone_iff stdClientCmp_keyOrder table rfl failed).mpr ⟨?_, fun _ _ _ => rfl⟩⟩
  obtain rfl : power = 1 :=
    Nat.pow_right_injective (le_refl 2) (table.rehashable.bucketCount.symm.trans rfl)
  exact fun overflows => absurd (overflows 1 (by decide)) (by decide)

/-- A table of two buckets, which grows when the first name is added. -/
def tightTable : StripedHtable := (htableCreate 1 1 40 0 stdClientCmp).get rfl

theorem tightTable_tableState :
    TableState stdClientCmp ValidUsername (fun _ => []) ∅ 1 ⟨fun _ => none, tightTable⟩ fun _ => [] :=
  @htableCreate_tableState _ _ _ 1 1 40 0 _ rfl (by decide) _

/-- The locks cannot be reallocated, and then the buckets cannot be made smaller. -/
theorem failed_resize_keeps_buckets :
    TableState stdClientCmp ValidUsername (fun _ => []) ∅ 1 ⟨fun _ => none, tightTable⟩ (fun _ => []) ∧
    ∃ next, htableResize ⟨true, false, fun _ => true, true, false⟩ ⟨fun _ => none, tightTable⟩ =
        some next ∧
      rehashes ⟨true, false, fun _ => true, true, false⟩ ⟨fun _ => none, tightTable⟩ = false ∧
      (tightTable.bucketCount, tightTable.lockCount, tightTable.resizeThresElemCount) = (2, 2, 0) ∧
      (next.htable.bucketCount, next.htable.lockCount, next.htable.resizeThresElemCount) = (4, 2, 1) ∧
      next.htable.lockCount <<< next.htable.bucketsPerLockPow2 ≠ next.htable.bucketCount ∧
      ¬ ResizeUndone (fun _ => []) ∅ ⟨fun _ => none, tightTable⟩ next := by
  refine ⟨tightTable_tableState, _, rfl, rfl, rfl, rfl, by decide, fun undone => ?_⟩
  exact absurd undone.bucketCount (by decide)

end Lwmsg
