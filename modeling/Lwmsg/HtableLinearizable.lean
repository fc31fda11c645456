/-
This file proves that the hash table is linearizable and that no thread in it is ever stuck.

Every call that adds, removes or looks up commits once between its beginning and its end, and the
commits in their order are a run of the map that the table stands for. A listing of the keys does not
commit, and is consistent with the commits around it. A thread that has the lock of a bucket, or the
table for itself, waits for nothing, so whoever waits does so for a thread that can go on.

All this is about runs in which the table has fewer than `2 ^ 40` elements and the allocations of
`htable_resize` succeed.
-/

import Lwmsg.HtableThreadSafety

namespace Lwmsg

open Bytes Pointers SinglyLinked

section Threads

variable {Thread : Type} [DecidableEq Thread] {world next : ThreadsWorld Thread} {thread : Thread}
  {action : Option HtableAction} {kind : KeyKind} {htable : StripedHtable}
  {trace : List (Thread × HtableAction)} [Fintype Thread] {size expansion load locks : Nat}

/-- **The striped hash table is linearizable.** However the statements of the threads come in turn,
every call of `htable_add`, `htable_remove` and `htable_get` commits once between its beginning and
its end, with what it answers, and the commits in their order are a run of a map. A listing of the
keys changes nothing and commits nothing. The table represents the map at every moment but for the
number it has counted, and that as well where nobody is in a call. -/
theorem htable_calls_linearize (sizeRange : 1 ≤ size ∧ size ≤ 21)
    (expansionRange : 1 ≤ expansion ∧ expansion ≤ 12) (loadRange : 1 ≤ load ∧ load ≤ 255)
    (lockRange : locks ≤ size)
    (created : htableCreate size expansion load locks kind.cmpfn = some htable)
    (run : ThreadsRun kind (unusedTable htable) trace world) :
    (∀ thread, phaseAfter thread trace = some (world.pc thread).phase) ∧
    ∃ map power lists, MapRun (commits trace) map ∧
      TableRepresents (world.state.withElementCount map.keys.card) map power lists ∧
      ((∀ thread, world.pc thread = .idle) → world.state.htable.elementCount = map.keys.card) := by
  obtain ⟨key, power, content, mapRun, invariant⟩ :=
    run.reached sizeRange expansionRange loadRange lockRange created
  have cardIs := invariant.of.holds.card invariant.of.table.rehashable.distinctKeys
  refine ⟨run.phases, content.map, power, content.lists, mapRun, ?_, fun allIdle => ?_⟩
  · rw [cardIs]
    exact invariant.of.table.represents kind.order invariant.of.holds
  · rw [cardIs, invariant.counted, Nat.add_eq_left]
    refine Finset.sum_eq_zero fun thread _ => ?_
    rw [allIdle thread]
    rfl

/-- The second thread waits for the lock of the bucket until the node is in it. -/
theorem addedAndSought_schedule :
    (addedAndSought.schedule (List.replicate 5 false ++ List.replicate 2 true ++
      List.replicate 5 false ++ List.replicate 7 true ++ List.replicate 2 false)).map Prod.fst =
      some [(false, .commit (.add 1 [97] true)), (true, .commit (.get [97] (some 1))),
        (true, .answer (.found (some 1))), (false, .answer (.added true))] := by
  rfl

theorem htable_calls_linearize_two_threads :
    ∃ (world : ThreadsWorld Bool) (map : KeyMap) (power : Nat) (lists : Nat → List Addr),
      MapRun [.add 1 [97] true, .get [97] (some 1)] map ∧
      TableRepresents (world.state.withElementCount map.keys.card) map power lists := by
  obtain ⟨⟨trace, world⟩, scheduled, rfl⟩ := Option.map_eq_some_iff.mp addedAndSought_schedule
  obtain ⟨-, map, power, lists, mapRun, represents, -⟩ :=
    @htable_calls_linearize Bool _ world .usernames smallTable _ _ 1 1 100 0 (by decide) (by decide)
      (by decide) (by decide) rfl (addedAndSought_run.schedule scheduled)
  exact ⟨world, map, power, lists, mapRun, represents⟩

/-! ### Waiting -/

/-- A thread has the lock that another one waits for. -/
def ThreadsWorld.Blocks (world : ThreadsWorld Thread) (holder thread : Thread) : Prop :=
  match world.pc thread with
  | .rdlock _ => (world.pc holder).tableMode = some .write
  | .lockBucket call _ lockIndex => (world.pc holder).lockMode lockIndex = some .write ∨
      call.mode = .write ∧ (world.pc holder).lockMode lockIndex = some .read
  | .copyLock i _ => (world.pc holder).lockMode i = some .write
  | _ => False

/-- Whoever waits is blocked by somebody. -/
theorem ThreadsInvariant.blocked {key : Addr → Bytes} {power : Nat} {content : TableContent}
    {maps : Thread → Set KeyMap} (invariant : ThreadsInvariant kind world key power content maps)
    (waits : world.Waits thread) :
    ∃ holder, world.Blocks holder thread := by
  unfold ThreadsWorld.Waits at waits
  unfold ThreadsWorld.Blocks
  cases here : world.pc thread with
  | rdlock call =>
    simp only [here] at waits
    obtain ⟨holder, writes | ⟨impossible, -⟩⟩ := invariant.tableLock.blocked waits
    · exact ⟨holder, writes⟩
    · cases impossible
  | lockBucket call bucketIndex lockIndex =>
    simp only [here] at waits
    exact (invariant.bucketLocks lockIndex).blocked waits
  | copyLock i listed =>
    simp only [here] at waits
    obtain ⟨holder, writes | ⟨impossible, -⟩⟩ := (invariant.bucketLocks i).blocked waits.2
    · exact ⟨holder, writes⟩
    · cases impossible
  | _ => simp only [here] at waits

omit [Fintype Thread] in
/-- Who has the lock of a bucket, or the table for itself, is in a call and waits for nothing. -/
theorem not_waits_of_holds (holds : (world.pc thread).tableMode = some .write ∨
    ∃ lockIndex, (world.pc thread).lockMode lockIndex ≠ none) :
    world.pc thread ≠ .idle ∧ ¬ world.Waits thread := by
  unfold ThreadsWorld.Waits
  cases here : world.pc thread with
  | idle => simp [here, HtablePc.tableMode, HtablePc.lockMode] at holds
  | rdlock call => simp [here, HtablePc.tableMode, HtablePc.lockMode] at holds
  | lockBucket call bucketIndex lockIndex =>
    simp [here, HtablePc.tableMode, HtablePc.lockMode] at holds
  | copyLock i listed => simp [here, HtablePc.tableMode, HtablePc.lockMode] at holds
  | _ => exact ⟨HtablePc.noConfusion, id⟩

omit [DecidableEq Thread] [Fintype Thread] in
theorem ThreadsWorld.Blocks.holds {holder : Thread} (blocks : world.Blocks holder thread) :
    (world.pc holder).tableMode = some .write ∨
      ∃ lockIndex, (world.pc holder).lockMode lockIndex ≠ none := by
  unfold ThreadsWorld.Blocks at blocks
  cases here : world.pc thread with
  | rdlock call =>
    simp only [here] at blocks
    exact .inl blocks
  | lockBucket call bucketIndex lockIndex =>
    simp only [here] at blocks
    refine .inr ⟨lockIndex, ?_⟩
    rcases blocks with writes | ⟨-, reads⟩
    · rw [writes]
      exact Option.some_ne_none _
    · rw [reads]
      exact Option.some_ne_none _
  | copyLock i listed =>
    simp only [here] at blocks
    refine .inr ⟨i, ?_⟩
    rw [blocks]
    exact Option.some_ne_none _
  | _ => simp only [here] at blocks

/-- **No thread in the table is ever stuck.** The statement of a thread in a call succeeds: no
pointer it follows is dead and no lock it takes is missing. Or it waits for a lock, and then some
thread that has this lock can run its own statement. -/
theorem htable_threads_progress (sizeRange : 1 ≤ size ∧ size ≤ 21)
    (expansionRange : 1 ≤ expansion ∧ expansion ≤ 12) (loadRange : 1 ≤ load ∧ load ≤ 255)
    (lockRange : locks ≤ size)
    (created : htableCreate size expansion load locks kind.cmpfn = some htable)
    (run : ThreadsRun kind (unusedTable htable) trace world)
    (few : world.state.htable.elementCount < 2 ^ 40) (busy : world.pc thread ≠ .idle) :
    (world.step thread).isSome ∨
      world.Waits thread ∧ ∃ holder, world.Blocks holder thread ∧ (world.step holder).isSome := by
  obtain ⟨key, power, content, -, invariant⟩ :=
    run.reached sizeRange expansionRange loadRange lockRange created
  rcases invariant.advances few busy with waits | ⟨_, _, _, _, step, -⟩
  · obtain ⟨holder, blocks⟩ := invariant.blocked waits
    obtain ⟨inCall, free⟩ := not_waits_of_holds blocks.holds
    obtain ⟨_, _, _, _, step, -⟩ := (invariant.advances few inCall).resolve_left free
    exact .inr ⟨waits, holder, blocks, Option.isSome_of_eq_some step⟩
  · exact .inl (Option.isSome_of_eq_some step)

/-- The second thread waits while the first one has the lock of the bucket. -/
theorem htable_threads_progress_waiting :
    ∃ world : ThreadsWorld Bool, (world.step true).isNone ∧
      ∃ holder, world.Blocks holder true ∧ (world.step holder).isSome := by
  obtain ⟨⟨trace, world⟩, scheduled, waiting, few, busy⟩ : ∃ result,
      addedAndSought.schedule (List.replicate 6 false ++ List.replicate 2 true) = some result ∧
      (result.2.step true).isNone ∧ result.2.state.htable.elementCount < 2 ^ 40 ∧
      result.2.pc true ≠ .idle := ⟨_, rfl, by decide, by decide, by decide⟩
  rcases @htable_threads_progress Bool _ world true .usernames smallTable _ _ 1 1 100 0 (by decide)
    (by decide) (by decide) (by decide) rfl (addedAndSought_run.schedule scheduled) few busy with
    steps | ⟨-, blocked⟩
  · rw [Option.isNone_iff_eq_none.mp waiting] at steps
    cases steps
  · exact ⟨world, waiting, blocked⟩

/-! ### Listing the keys -/

omit [Fintype Thread] in
/-- Who listed the keys was about to answer. -/
theorem ThreadsRun.beforeAnswer {start : ThreadsWorld Thread} {listed : List Bytes}
    {whole : List (Thread × HtableAction)} (run : ThreadsRun kind start whole world)
    (answered : whole = trace ++ [(thread, .answer (.keys listed))]) :
    ∃ before call, ThreadsRun kind start trace before ∧
      before.pc thread = .answering call (.keys listed) := by
  induction run with
  | start => exact absurd answered (by simp)
  | create element node _ dead isValid inductionHypothesis => exact inductionHypothesis answered
  | call other call _ ready callable inductionHypothesis =>
    cases (List.append_inj' answered rfl).2
  | @step older world next action other run few taken inductionHypothesis =>
    cases action with
    | none =>
      rw [Option.map_none, Option.toList_none, List.append_nil] at answered
      exact inductionHypothesis answered
    | some action =>
      obtain ⟨rfl, last⟩ := List.append_inj' answered rfl
      cases last
      obtain ⟨call, here⟩ := step_answers taken
      exact ⟨world, call, run, here⟩

/-- **A listing of the keys is weakly consistent.** While other threads add and remove nodes, what
`htable_copy_all_keys` lists has each key once, every key that was in the table for the whole call,
and no key that was not in it at some moment of the call. -/
theorem htable_listing_consistent (sizeRange : 1 ≤ size ∧ size ≤ 21)
    (expansionRange : 1 ≤ expansion ∧ expansion ≤ 12) (loadRange : 1 ≤ load ∧ load ≤ 255)
    (lockRange : locks ≤ size)
    (created : htableCreate size expansion load locks kind.cmpfn = some htable)
    {listed : List Bytes} (run : ThreadsRun kind (unusedTable htable)
      (trace ++ [(thread, .answer (.keys listed))]) world) :
    listed.Nodup ∧
    (∀ key, (∀ map ∈ mapsSince trace thread, key ∈ map) → key ∈ listed) ∧
    ∀ key ∈ listed, ∃ map ∈ mapsSince trace thread, key ∈ map := by
  obtain ⟨before, call, run, here⟩ := run.beforeAnswer rfl
  obtain ⟨key, power, content, -, invariant⟩ :=
    run.reached sizeRange expansionRange loadRange lockRange created
  have all := invariant.holds thread
  rw [here] at all
  exact ⟨all.once, all.complete, all.seen⟩

/-- One thread is about to add a node, and another one to list the keys. -/
def addedAndListed : ThreadsWorld Bool :=
  (((unusedTable smallTable).create 1 ⟨[97], none, 1⟩).begin_ false (.add 1)).begin_ true .copyAllKeys

theorem addedAndListed_run :
    ThreadsRun .usernames (unusedTable smallTable)
      [(false, .call (.add 1)), (true, .call .copyAllKeys)] addedAndListed := by
  have unused : ThreadsRun .usernames (unusedTable smallTable : ThreadsWorld Bool) [] _ := .start
  have made := unused.create 1 ⟨[97], none, 1⟩ rfl ⟨by decide, by simp, by decide⟩
  have adds := made.call false (.add 1) rfl (Finset.mem_insert_self ..)
  exact adds.call true .copyAllKeys rfl trivial

/-- The node is added while its key is about to be listed. -/
theorem addedAndListed_schedule :
    (addedAndListed.schedule (List.replicate 1 true ++ List.replicate 12 false ++
      List.replicate 13 true)).map Prod.fst =
      some [(false, .commit (.add 1 [97] true)), (false, .answer (.added true)),
        (true, .answer (.keys [[97]]))] := by
  rfl

theorem htable_listing_consistent_adding :
    ∃ map ∈ mapsSince [(false, .call (.add 1)), (true, .call .copyAllKeys),
      (false, .commit (.add 1 [97] true)), (false, .answer (.added true))] true, [97] ∈ map := by
  obtain ⟨⟨trace, world⟩, scheduled, rfl⟩ := Option.map_eq_some_iff.mp addedAndListed_schedule
  obtain ⟨-, -, seen⟩ := @htable_listing_consistent Bool _ world true .usernames smallTable
    [(false, .call (.add 1)), (true, .call .copyAllKeys), (false, .commit (.add 1 [97] true)),
      (false, .answer (.added true))] _ 1 1 100 0 (by decide) (by decide) (by decide) (by decide) rfl
    [[97]] (addedAndListed_run.schedule scheduled)
  exact seen [97] (List.mem_singleton_self _)

end Threads

end Lwmsg
