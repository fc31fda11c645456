/-
This file models `htable_delete` of `server/htable.c`, which frees every node of a table whatever
references there are to it. It visits the buckets in turn and frees the nodes of a bucket from the
front, so it must have read the link of a node before it frees the node.
-/

import Lwmsg.HtableThreadSafety

namespace Lwmsg

open Bytes Pointers SinglyLinked

/-- The inner loop of `htable_delete`: the memory left, and the nodes that `free_fn` was called for.
The fuel bounds the number of its turns, and running out of it is a failure. -/
def htableDeleteBucket : Nat → Memory Node → Option Addr → Option (Memory Node × List Addr)
  | _, memory, none => some (memory, [])
  | 0, _, some _ => none
  | fuel + 1, memory, some temp => do
    let node ← load memory (some temp)
    let memory ← release memory (some temp)
    let (memory, freed) ← htableDeleteBucket fuel memory node.next
    return (memory, temp :: freed)

/-- The outer loop of `htable_delete` over the buckets that are left. -/
def htableDeleteLoop (state : HtableState) :
    List Nat → Memory Node → Option (Memory Node × List Addr)
  | [], memory => some (memory, [])
  | i :: rest, memory => do
    let (memory, freed) ← htableDeleteBucket state.fuel memory (state.htable.buckets i)
    let (memory, more) ← htableDeleteLoop state rest memory
    return (memory, freed ++ more)

/-- `htable_delete`. -/
def htableDelete (state : HtableState) : Option (Memory Node × List Addr) :=
  htableDeleteLoop state (List.range state.htable.bucketCount) state.memory

/-- The memory without some nodes. -/
def withoutNodes (memory : Memory Node) (freed : List Addr) : Memory Node := fun addr =>
  if addr ∈ freed then none else memory addr

section Delete

variable {memory : Memory Node} {head : Option Addr} {addrs : List Addr} {state : HtableState}

theorem withoutNodes_nil (memory : Memory Node) : withoutNodes memory [] = memory := by
  funext addr
  simp [withoutNodes]

theorem withoutNodes_append (memory : Memory Node) (first second : List Addr) :
    withoutNodes (withoutNodes memory first) second = withoutNodes memory (first ++ second) := by
  funext addr
  by_cases before : addr ∈ first
  · simp [withoutNodes, before]
  · simp [withoutNodes, before]

/-- The nodes of a bucket are freed in their order, and the walk reads none that was freed. -/
theorem htableDeleteBucket_path {fuel : Nat} (path : Path (linkOf memory) head addrs none)
    (distinct : addrs.Nodup) (live : ∀ addr ∈ addrs, memory addr ≠ none)
    (enough : addrs.length < fuel) :
    htableDeleteBucket fuel memory head = some (withoutNodes memory addrs, addrs) := by
  induction addrs generalizing memory head fuel with
  | nil =>
    obtain rfl : head = none := path
    rw [htableDeleteBucket, withoutNodes_nil]
  | cons temp rest inductionHypothesis =>
    obtain ⟨rfl, tail⟩ := path
    obtain ⟨notRest, distinctRest⟩ := List.nodup_cons.mp distinct
    obtain ⟨fuel, rfl⟩ : ∃ more, fuel = more + 1 := ⟨fuel - 1, by simp at enough; omega⟩
    obtain ⟨node, found⟩ := Option.ne_none_iff_exists'.mp (live temp List.mem_cons_self)
    have others : ∀ addr ∈ rest, Function.update memory temp none addr = memory addr := by
      intro addr member
      refine Function.update_of_ne ?_ _ _
      rintro rfl
      exact notRest member
    have link : linkOf memory temp = node.next := by rw [linkOf, found, Option.bind_some]
    have tailPath : Path (linkOf (Function.update memory temp none)) node.next rest none :=
      link ▸ tail.congr fun addr member => by rw [linkOf, others addr member, linkOf]
    have deleted := inductionHypothesis tailPath distinctRest
      (fun addr member => others addr member ▸ live addr (List.mem_cons_of_mem _ member))
      (Nat.lt_of_succ_lt_succ enough)
    have once : withoutNodes (Function.update memory temp none) rest =
        withoutNodes memory (temp :: rest) := by
      rw [show Function.update memory temp none = withoutNodes memory [temp] from ?_,
        withoutNodes_append, List.singleton_append]
      funext addr
      by_cases same : addr = temp
      · simp [withoutNodes, same]
      · simp [withoutNodes, same]
    rw [htableDeleteBucket, load_some, found, Option.bind_eq_bind, Option.bind_some,
      release_of_live found, Option.bind_eq_bind, Option.bind_some, deleted, once]
    rfl

/-- The buckets are freed in turn, and what was freed is in none of those that are left. -/
theorem htableDeleteLoop_chains {lists : Nat → List Addr} {count : Nat} {indices : List Nat}
    {done : List Addr}
    (chains : Chains (linkOf state.memory) state.htable.buckets count lists)
    (inside : ∀ index ∈ indices, index < count) (distinct : indices.Nodup)
    (live : ∀ index < count, ∀ addr ∈ lists index, state.memory addr ≠ none)
    (apart : ∀ index ∈ indices, ∀ addr ∈ lists index, addr ∉ done)
    (enough : ∀ index < count, (lists index).length < state.fuel) :
    htableDeleteLoop state indices (withoutNodes state.memory done) =
      some (withoutNodes state.memory (done ++ indices.flatMap lists), indices.flatMap lists) := by
  induction indices generalizing done with
  | nil => rw [htableDeleteLoop, List.flatMap_nil, List.append_nil]
  | cons index rest inductionHypothesis =>
    obtain ⟨notRest, distinctRest⟩ := List.nodup_cons.mp distinct
    have here := inside index List.mem_cons_self
    have same : ∀ addr ∈ lists index, withoutNodes state.memory done addr = state.memory addr :=
      fun addr member => if_neg (apart index List.mem_cons_self addr member)
    have path : Path (linkOf (withoutNodes state.memory done)) (state.htable.buckets index)
        (lists index) none :=
      (chains.path index here).congr fun addr member => by rw [linkOf, same addr member, linkOf]
    have bucket := htableDeleteBucket_path path (chains.distinct index here)
      (fun addr member => same addr member ▸ live index here addr member) (enough index here)
    have others := @inductionHypothesis (done ++ lists index)
      (fun other member => inside other (List.mem_cons_of_mem _ member)) distinctRest
      fun other member addr isListed alsoDone => by
        rcases List.mem_append.mp alsoDone with before | isHere
        · exact apart other (List.mem_cons_of_mem _ member) addr isListed before
        · exact notRest (chains.apart index here other
            (inside other (List.mem_cons_of_mem _ member)) addr isHere isListed ▸ member)
    rw [List.append_assoc] at others
    rw [htableDeleteLoop, bucket, withoutNodes_append, List.flatMap_cons]
    simp only [Option.bind_eq_bind, Option.bind_some, others, Option.pure_def]

end Delete

section Invariant

variable {cmpfn : CmpFunc} {valid : Bytes → Prop} {key : Addr → Bytes} {members : Finset Addr}
  {power : Nat} {state : HtableState} {lists : Nat → List Addr}

/-- Every node of the table is freed once, and nothing else. -/
theorem TableInvariant.delete (invariant : TableInvariant cmpfn valid key members power state lists) :
    ∃ freed, htableDelete state = some (withoutNodes state.memory freed, freed) ∧ freed.Nodup ∧
      ∀ addr, addr ∈ freed ↔ addr ∈ members := by
  have bucketCount := invariant.rehashable.bucketCount
  have chains := invariant.rehashable.buckets.chains
  refine ⟨(List.range (2 ^ power)).flatMap lists, ?_, ?_, fun addr => ?_⟩
  · have deleted := @htableDeleteLoop_chains state lists _ (List.range (2 ^ power)) [] chains
      (fun index member => bucketCount ▸ List.mem_range.mp member) List.nodup_range
      (fun index inside addr member => ?_) (fun _ _ _ _ none => by cases none)
      (fun index inside => invariant.rehashable.length_lt_fuel (bucketCount ▸ inside))
    · rw [withoutNodes_nil, List.nil_append] at deleted
      rw [htableDelete, bucketCount]
      exact deleted
    · obtain ⟨node, found, _⟩ := invariant.rehashable.buckets.live index inside addr member
      exact Option.ne_none_iff_exists'.mpr ⟨node, found⟩
  · rw [List.nodup_flatMap]
    refine ⟨fun index member => chains.distinct index (bucketCount ▸ List.mem_range.mp member), ?_⟩
    refine List.nodup_range.pairwise_of_forall_ne fun index inside another alsoInside different => ?_
    rw [Function.onFun, List.disjoint_left]
    exact fun addr first second => different (chains.apart index
      (bucketCount ▸ List.mem_range.mp inside) another (bucketCount ▸ List.mem_range.mp alsoInside)
      addr first second)
  · rw [List.mem_flatMap]
    constructor
    · rintro ⟨index, inside, member⟩
      exact ((invariant.placed index (List.mem_range.mp inside) addr).mp member).1
    · intro member
      exact ⟨_, List.mem_range.mpr (bucketOf_lt power _),
        (invariant.placed _ (bucketOf_lt power _) addr).mpr ⟨member, rfl⟩⟩

end Invariant

section Threads

variable {Thread : Type} [DecidableEq Thread] {world : ThreadsWorld Thread} {kind : KeyKind}
  {htable : StripedHtable} {trace : List (Thread × HtableAction)} [Fintype Thread]
  {size expansion load locks : Nat}

/-- **A table is deleted without a leak or a double free.** After threads used it in any order and
all came back from their calls, `htable_delete` frees the nodes of the map that these calls make,
each of them once, and reads no node that it has freed. -/
theorem htable_delete_frees_map (sizeRange : 1 ≤ size ∧ size ≤ 21)
    (expansionRange : 1 ≤ expansion ∧ expansion ≤ 12) (loadRange : 1 ≤ load ∧ load ≤ 255)
    (lockRange : locks ≤ size)
    (created : htableCreate size expansion load locks kind.cmpfn = some htable)
    (run : ThreadsRun kind (unusedTable htable) trace world)
    (returned : ∀ thread, world.pc thread = .idle) :
    ∃ map freed, MapRun (commits trace) map ∧
      htableDelete world.state = some (withoutNodes world.state.memory freed, freed) ∧
      freed.Nodup ∧ ∀ addr, addr ∈ freed ↔ ∃ name, map.lookup name = some addr := by
  obtain ⟨key, power, content, mapRun, invariant⟩ :=
    run.reached sizeRange expansionRange loadRange lockRange created
  have counted : world.state.htable.elementCount = content.members.card := by
    rw [invariant.counted, Nat.add_eq_left]
    refine Finset.sum_eq_zero fun thread _ => ?_
    rw [returned thread]
    rfl
  have table := invariant.of.table
  rw [← counted] at table
  obtain ⟨freed, deleted, once, isMember⟩ := table.delete
  refine ⟨content.map, freed, mapRun, deleted, once, fun addr => (isMember addr).trans ?_⟩
  constructor
  · exact fun member => ⟨key addr, (invariant.of.holds _ _).mpr ⟨member, rfl⟩⟩
  · rintro ⟨name, found⟩
    exact ((invariant.of.holds name addr).mp found).1

end Threads

/-- One name is in the table, and both threads came back. -/
theorem htable_delete_frees_map_one_name :
    ∃ (world : ThreadsWorld Bool) (memory : Memory Node),
      htableDelete world.state = some (memory, [1]) := by
  obtain ⟨⟨trace, world⟩, scheduled, returned, deleted⟩ : ∃ result,
      addedAndSought.schedule (List.replicate 5 false ++ List.replicate 2 true ++
        List.replicate 5 false ++ List.replicate 7 true ++ List.replicate 2 false) = some result ∧
      (∀ thread, result.2.pc thread = .idle) ∧
      (htableDelete result.2.state).map Prod.snd = some [1] :=
    ⟨_, rfl, by decide, rfl⟩
  obtain ⟨-, freed, -, deletes, -⟩ :=
    @htable_delete_frees_map Bool _ world .usernames smallTable _ _ 1 1 100 0 (by decide) (by decide)
      (by decide) (by decide) rfl (addedAndSought_run.schedule scheduled) returned
  rw [deletes] at deleted
  obtain rfl := Option.some.inj deleted
  exact ⟨world, _, deletes⟩

end Lwmsg
