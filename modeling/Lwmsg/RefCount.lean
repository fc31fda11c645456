/-
This file models the reference counts of the nodes of `server/htable.c`: `node_get`,
`node_put`, and what `htable_add`, `htable_get` and `htable_remove` do with them. It
proves when a node is freed, over all interleavings of any number of threads.

The table is the finite map that `htable.c` refines, and each operation on it is one
step. `node_put` takes two: it decrements the count, and it calls `free_fn` if the
count became zero. `htable_get_cond` is a `htable_get` with a `node_put` behind it if
the condition fails, and `node_arr_sweep` is a series of `htable_remove`.
-/

import Mathlib.Data.UInt
import Mathlib.Logic.Function.Basic
import Mathlib.Data.List.Count

namespace Lwmsg

/-! ### Nodes and threads -/

/-- Where a node is in its life: made by a thread, in the table, or removed from it. -/
inductive NodeStage
  | created
  | inTable
  | removed
  deriving DecidableEq, Repr

/-- `node`, with its stage and the number of times `free_fn` was called for it. The program keeps
neither of the two. -/
structure CountedNode (Key : Type) where
  key : Key
  refCnt : UInt32
  stage : NodeStage
  freed : Nat
  deriving DecidableEq, Repr

/-- `node_get`. -/
def CountedNode.nodeGet {Key : Type} (n : CountedNode Key) : CountedNode Key :=
  { n with refCnt := n.refCnt + 1 }

/-- The decrement of `node_put`. -/
def CountedNode.nodePut {Key : Type} (n : CountedNode Key) : CountedNode Key :=
  { n with refCnt := n.refCnt - 1 }

/-- The nodes, the table, the references that threads hold, and the nodes for which a thread is about
to call `free_fn`. -/
structure RefWorld (Key : Type) where
  nodes : Nat → Option (CountedNode Key)
  table : Key → Option Nat
  holds : List (Nat × Nat)
  disposing : List (Nat × Nat)

variable {Key : Type}

namespace RefWorld

/-- The number of references to a node that threads hold. -/
def holders (world : RefWorld Key) (place : Nat) : Nat := world.holds.countP (·.2 = place)

/-- The number of calls of `free_fn` for a node that are about to happen. -/
def pending (world : RefWorld Key) (place : Nat) : Nat := world.disposing.countP (·.2 = place)

/-- The node is in a bucket. -/
def InBucket (world : RefWorld Key) (place : Nat) : Prop := ∃ key, world.table key = some place

/-- The thread is not in the middle of `node_put`. -/
def Ready (world : RefWorld Key) (thread : Nat) : Prop := ∀ place, (thread, place) ∉ world.disposing

/-- A thread gives a reference up, be it its own or the table's. -/
def put (world : RefWorld Key) (thread place : Nat) (n : CountedNode Key) : RefWorld Key :=
  { world with
    nodes := Function.update world.nodes place (some n.nodePut)
    disposing := if n.nodePut.refCnt = 0 then (thread, place) :: world.disposing
      else world.disposing }

variable [DecidableEq Key]

/-- `htable_add`, for a node that was made with one reference. -/
def htableAdd (world : RefWorld Key) (place : Nat) (n : CountedNode Key) : RefWorld Key :=
  match world.table n.key with
  | some _ => world
  | none =>
    { world with
      nodes := Function.update world.nodes place (some { n with stage := .inTable })
      table := Function.update world.table n.key (some place) }

/-- `htable_get` with `ref_inc`, where it finds a node. -/
def htableGet (world : RefWorld Key) (thread place : Nat) (n : CountedNode Key) : RefWorld Key :=
  { world with
    nodes := Function.update world.nodes place (some n.nodeGet)
    holds := (thread, place) :: world.holds }

/-- `htable_remove`, where it finds a node. -/
def htableRemove (world : RefWorld Key) (thread place : Nat) (n : CountedNode Key) : RefWorld Key :=
  { world with table := Function.update world.table n.key none }.put thread place
    { n with stage := .removed }

end RefWorld

/-- One step of one thread. -/
inductive RefStep [DecidableEq Key] : RefWorld Key → RefWorld Key → Prop
  | create {world} (place : Nat) (key : Key) (unused : world.nodes place = none) :
      RefStep world { world with
        nodes := Function.update world.nodes place (some ⟨key, 1, .created, 0⟩) }
  | add {world} (thread place : Nat) {n} (ready : world.Ready thread)
      (there : world.nodes place = some n) (created : n.stage = .created) :
      RefStep world (world.htableAdd place n)
  | get {world} (thread place : Nat) {n} (ready : world.Ready thread)
      (there : world.nodes place = some n) (found : world.table n.key = some place) :
      RefStep world (world.htableGet thread place n)
  | put {world} (thread place : Nat) {n} (ready : world.Ready thread)
      (there : world.nodes place = some n) (held : (thread, place) ∈ world.holds) :
      RefStep world ({ world with holds := world.holds.erase (thread, place) }.put thread place n)
  | remove {world} (thread place : Nat) {n} (ready : world.Ready thread)
      (there : world.nodes place = some n) (found : world.table n.key = some place) :
      RefStep world (world.htableRemove thread place n)
  | free {world} (thread place : Nat) {n} (there : world.nodes place = some n)
      (due : (thread, place) ∈ world.disposing) :
      RefStep world { world with
        nodes := Function.update world.nodes place (some { n with freed := n.freed + 1 })
        disposing := world.disposing.erase (thread, place) }

/-- A server that starts has no nodes. -/
def refStart : RefWorld Key := ⟨fun _ => none, fun _ => none, [], []⟩

/-- A run, with the states before the last one. -/
inductive RefRun [DecidableEq Key] : List (RefWorld Key) → RefWorld Key → Prop
  | start : RefRun [] refStart
  | step {history world next} (run : RefRun history world) (step : RefStep world next) :
      RefRun (history ++ [world]) next

/-- Less than `2 ^ 32 - 1` references to any node are held. -/
def RefWorld.Bounded (world : RefWorld Key) : Prop := ∀ place, world.holders place + 1 < 2 ^ 32

/-! ### One node -/

/-- The reference a node has besides those that threads hold: the one it was made with, which
`htable_add` hands to the table. -/
def NodeStage.own : NodeStage → Nat
  | .created | .inTable => 1
  | .removed => 0

/-- What holds of a node that exists. -/
structure NodeSound (n : CountedNode Key) (holders pending : Nat) (inBucket : Prop) : Prop where
  count : n.refCnt.toNat = holders + n.stage.own
  bucket : inBucket ↔ n.stage = .inTable
  disposed : n.freed + pending = if holders + n.stage.own = 0 then 1 else 0

theorem NodeSound.get {n : CountedNode Key} {holders pending : Nat} {inBucket : Prop}
    (sound : NodeSound n holders pending inBucket) (found : inBucket)
    (space : holders + 2 < 2 ^ 32) : NodeSound n.nodeGet (holders + 1) pending inBucket := by
  obtain ⟨count, bucket, disposed⟩ := sound
  have own : n.stage.own = 1 := by rw [bucket.mp found, NodeStage.own]
  refine ⟨?_, bucket, ?_⟩
  · show (n.refCnt + 1).toNat = holders + 1 + n.stage.own
    rw [own] at count ⊢
    rw [UInt32.toNat_add, count, UInt32.toNat_one, Nat.mod_eq_of_lt (by omega)]
  · show n.freed + pending = if holders + 1 + n.stage.own = 0 then 1 else 0
    rw [disposed, own, if_neg (by omega), if_neg (by omega)]

/-- A reference that is given up was counted, so the count becomes zero exactly with the last. -/
theorem NodeSound.put {n after : CountedNode Key} {holders left pending : Nat}
    {inBucket nowInBucket : Prop} (sound : NodeSound n holders pending inBucket)
    (same : after.refCnt = n.refCnt ∧ after.freed = n.freed)
    (given : left + after.stage.own + 1 = holders + n.stage.own)
    (bucket : nowInBucket ↔ after.stage = .inTable) :
    NodeSound after.nodePut left (if after.nodePut.refCnt = 0 then pending + 1 else pending)
      nowInBucket := by
  obtain ⟨count, _, disposed⟩ := sound
  have value : after.nodePut.refCnt.toNat = left + after.stage.own := by
    have enough : (1 : UInt32).toNat ≤ n.refCnt.toNat := by
      rw [count, ← given, UInt32.toNat_one]
      omega
    show (after.refCnt - 1).toNat = left + after.stage.own
    rw [same.1, UInt32.toNat_sub_of_le _ _ (UInt32.le_iff_toNat_le.mpr enough), count, ← given,
      UInt32.toNat_one]
    omega
  have zero : after.nodePut.refCnt = 0 ↔ left + after.stage.own = 0 := by
    rw [← value, ← UInt32.toNat_inj, UInt32.toNat_zero]
  rw [← given, if_neg (by omega)] at disposed
  refine ⟨value, bucket, ?_⟩
  show after.freed + _ = if left + after.stage.own = 0 then 1 else 0
  rw [same.2]
  by_cases last : left + after.stage.own = 0
  · rw [if_pos (zero.mpr last), if_pos last]
    omega
  · rw [if_neg (fun gone => last (zero.mp gone)), if_neg last]
    omega

theorem NodeSound.free {n : CountedNode Key} {holders pending : Nat} {inBucket : Prop}
    (sound : NodeSound n holders (pending + 1) inBucket) :
    NodeSound { n with freed := n.freed + 1 } holders pending inBucket := by
  obtain ⟨count, bucket, disposed⟩ := sound
  refine ⟨count, bucket, ?_⟩
  show n.freed + 1 + pending = if holders + n.stage.own = 0 then 1 else 0
  omega

/-! ### All nodes -/

/-- What holds in every state of a run: each node that exists is sound, nothing refers to one that
does not, and the table files its nodes under their keys. -/
structure RefInvariant (world : RefWorld Key) : Prop where
  sound : ∀ place n, world.nodes place = some n →
    NodeSound n (world.holders place) (world.pending place) (world.InBucket place)
  unused : ∀ place, world.nodes place = none →
    world.holders place = 0 ∧ world.pending place = 0 ∧ ¬ world.InBucket place
  keyed : ∀ key place, world.table key = some place → ∃ n, world.nodes place = some n ∧ n.key = key

/-- A step that touches one node keeps the others as they are. -/
theorem RefInvariant.touch {world next : RefWorld Key} {place : Nat} {n : CountedNode Key}
    (invariant : RefInvariant world)
    (nodes : next.nodes = Function.update world.nodes place (some n))
    (others : ∀ other, other ≠ place → next.holders other = world.holders other ∧
      next.pending other = world.pending other ∧ (next.InBucket other ↔ world.InBucket other))
    (sound : NodeSound n (next.holders place) (next.pending place) (next.InBucket place))
    (keyed : ∀ key place, next.table key = some place → ∃ n, next.nodes place = some n ∧ n.key = key) :
    RefInvariant next where
  sound := by
    intro other node there
    by_cases same : other = place
    · subst same
      rw [nodes, Function.update_self] at there
      obtain rfl := Option.some.inj there
      exact sound
    · rw [nodes, Function.update_of_ne same] at there
      obtain ⟨holders, pending, bucket⟩ := others other same
      have before := invariant.sound other node there
      exact ⟨by rw [holders]; exact before.count, bucket.trans before.bucket,
        by rw [holders, pending]; exact before.disposed⟩
  unused := by
    intro other there
    by_cases same : other = place
    · subst same
      rw [nodes, Function.update_self] at there
      cases there
    · rw [nodes, Function.update_of_ne same] at there
      obtain ⟨holders, pending, bucket⟩ := others other same
      rw [holders, pending, bucket]
      exact invariant.unused other there
  keyed := keyed

section Steps

variable {world : RefWorld Key} {thread place : Nat} {n : CountedNode Key}

@[simp] theorem countP_cons_place (pair : Nat × Nat) (pairs : List (Nat × Nat)) :
    (pair :: pairs).countP (·.2 = place) =
      pairs.countP (·.2 = place) + if pair.2 = place then 1 else 0 := by
  rw [List.countP_cons]
  by_cases same : pair.2 = place <;> simp [same]

/-- A pair that is erased was counted. -/
theorem countP_erase_place {pairs : List (Nat × Nat)} (member : (thread, place) ∈ pairs) (other : Nat) :
    (pairs.erase (thread, place)).countP (·.2 = other) + (if place = other then 1 else 0) =
      pairs.countP (·.2 = other) := by
  have split := (List.perm_cons_erase member).countP_eq (·.2 = other)
  rw [split, countP_cons_place]

theorem RefWorld.put_pending (other : Nat) : (world.put thread place n).pending other =
    if other = place ∧ n.nodePut.refCnt = 0 then world.pending other + 1
    else world.pending other := by
  by_cases last : n.nodePut.refCnt = 0
  · by_cases same : place = other
    · simp [RefWorld.pending, RefWorld.put, last, same]
    · simp [RefWorld.pending, RefWorld.put, last, same, Ne.symm same]
  · simp [RefWorld.pending, RefWorld.put, last]

/-- Threads only refer to nodes that exist. -/
theorem RefInvariant.keyed_update (invariant : RefInvariant world) {after : CountedNode Key}
    (there : world.nodes place = some n) (same : after.key = n.key) :
    ∀ key other, world.table key = some other →
      ∃ node, Function.update world.nodes place (some after) other = some node ∧ node.key = key := by
  intro key other found
  obtain ⟨node, exists', rfl⟩ := invariant.keyed key other found
  by_cases equal : other = place
  · subst equal
    rw [there] at exists'
    obtain rfl := Option.some.inj exists'
    exact ⟨after, Function.update_self _ _ _, same⟩
  · exact ⟨node, by rw [Function.update_of_ne equal, exists'], rfl⟩

theorem RefInvariant.get [DecidableEq Key] (invariant : RefInvariant world)
    (there : world.nodes place = some n) (found : world.table n.key = some place)
    (bounded : (world.htableGet thread place n).Bounded) :
    RefInvariant (world.htableGet thread place n) := by
  have before := invariant.sound place n there
  have holders (other : Nat) : (world.htableGet thread place n).holders other =
      world.holders other + if place = other then 1 else 0 := countP_cons_place _ _
  have space := bounded place
  rw [holders, if_pos rfl] at space
  refine invariant.touch rfl (fun other different => ?_) ?_ (invariant.keyed_update there rfl)
  · exact ⟨by rw [holders, if_neg (Ne.symm different), Nat.add_zero], rfl, Iff.rfl⟩
  · rw [holders, if_pos rfl]
    exact before.get ⟨_, found⟩ space

theorem RefInvariant.put (invariant : RefInvariant world) (there : world.nodes place = some n)
    (held : (thread, place) ∈ world.holds) :
    RefInvariant ({ world with holds := world.holds.erase (thread, place) }.put thread place n) := by
  have before := invariant.sound place n there
  have erased := countP_erase_place held
  refine invariant.touch rfl (fun other different => ⟨?_, ?_, Iff.rfl⟩) ?_
    (invariant.keyed_update there rfl)
  · have kept := erased other
    rw [if_neg (Ne.symm different), Nat.add_zero] at kept
    exact kept
  · rw [RefWorld.put_pending, if_neg fun both => different both.1]
    rfl
  · have given := erased place
    rw [if_pos rfl] at given
    rw [RefWorld.put_pending]
    simp only [true_and]
    refine before.put ⟨rfl, rfl⟩ ?_ before.bucket
    show (world.holds.erase (thread, place)).countP (·.2 = place) + n.stage.own + 1 =
      world.holds.countP (·.2 = place) + n.stage.own
    omega

theorem RefInvariant.remove [DecidableEq Key] (invariant : RefInvariant world)
    (there : world.nodes place = some n) (found : world.table n.key = some place) :
    RefInvariant (world.htableRemove thread place n) := by
  have before := invariant.sound place n there
  have own : n.stage = .inTable := before.bucket.mp ⟨_, found⟩
  have bucket (other : Nat) : (world.htableRemove thread place n).InBucket other ↔
      other ≠ place ∧ world.InBucket other := by
    constructor
    · rintro ⟨key, member⟩
      have away : key ≠ n.key := by
        rintro rfl
        simp [RefWorld.htableRemove, RefWorld.put] at member
      have stayed : world.table key = some other := by
        simpa [RefWorld.htableRemove, RefWorld.put, Function.update_of_ne away] using member
      refine ⟨?_, key, stayed⟩
      rintro rfl
      obtain ⟨node, same, rfl⟩ := invariant.keyed key _ stayed
      rw [there] at same
      exact away (by rw [Option.some.inj same])
    · rintro ⟨different, key, member⟩
      have away : key ≠ n.key := by
        rintro rfl
        exact different (Option.some.inj (member.symm.trans found))
      exact ⟨key, by simpa [RefWorld.htableRemove, RefWorld.put, Function.update_of_ne away]⟩
  refine invariant.touch rfl (fun other different => ⟨rfl, ?_, ?_⟩) ?_ ?_
  · rw [RefWorld.htableRemove, RefWorld.put_pending, if_neg fun both => different both.1]
    rfl
  · rw [bucket]
    exact and_iff_right different
  · rw [RefWorld.htableRemove, RefWorld.put_pending]
    simp only [true_and]
    refine before.put ⟨rfl, rfl⟩ ?_ ?_
    · show world.holders place + 0 + 1 = world.holders place + n.stage.own
      rw [own, NodeStage.own]
    · exact iff_of_false (fun inBucket => ((bucket place).mp inBucket).1 rfl) (by simp)
  · intro key other member
    have stayed : other ≠ place ∧ world.table key = some other := by
      obtain ⟨different, _⟩ := (bucket other).mp ⟨key, member⟩
      refine ⟨different, ?_⟩
      by_cases same : key = n.key
      · subst same
        simp [RefWorld.htableRemove, RefWorld.put] at member
      · simpa [RefWorld.htableRemove, RefWorld.put, Function.update_of_ne same] using member
    obtain ⟨node, exists', keyed⟩ := invariant.keyed key other stayed.2
    exact ⟨node, by rw [← exists']; exact Function.update_of_ne stayed.1 _ _, keyed⟩

theorem RefInvariant.add [DecidableEq Key] (invariant : RefInvariant world)
    (there : world.nodes place = some n) (created : n.stage = .created) :
    RefInvariant (world.htableAdd place n) := by
  have before := invariant.sound place n there
  rw [RefWorld.htableAdd]
  split
  · exact invariant
  · rename_i free
    have absent : ¬ world.InBucket place := fun inBucket => by
      have stage := before.bucket.mp inBucket
      rw [created] at stage
      cases stage
    refine invariant.touch rfl (fun other different => ⟨rfl, rfl, ?_⟩) ?_ ?_
    · constructor
      · rintro ⟨key, member⟩
        replace member : Function.update world.table n.key (some place) key = some other := member
        rw [Function.update_apply] at member
        split at member
        · exact absurd (Option.some.inj member).symm different
        · exact ⟨key, member⟩
      · rintro ⟨key, member⟩
        have away : key ≠ n.key := by
          rintro rfl
          rw [free] at member
          cases member
        exact ⟨key, (Function.update_of_ne away _ _).trans member⟩
    · refine ⟨?_, ?_, ?_⟩
      · have count := before.count
        rw [created] at count
        exact count
      · exact iff_of_true ⟨n.key, Function.update_self _ _ _⟩ rfl
      · have disposed := before.disposed
        rw [created] at disposed
        exact disposed
    · intro key other member
      replace member : Function.update world.table n.key (some place) key = some other := member
      rw [Function.update_apply] at member
      split at member
      · rename_i same
        obtain rfl := Option.some.inj member
        exact ⟨_, Function.update_self _ _ _, same.symm⟩
      · exact @RefInvariant.keyed_update _ _ _ _ invariant { n with stage := .inTable } there rfl
          key other member

theorem RefInvariant.create (invariant : RefInvariant world) (key : Key)
    (unused : world.nodes place = none) : RefInvariant { world with
      nodes := Function.update world.nodes place (some ⟨key, 1, .created, 0⟩) } := by
  obtain ⟨holders, pending, bucket⟩ := invariant.unused place unused
  refine invariant.touch rfl (fun other different => ⟨rfl, rfl, Iff.rfl⟩) ⟨?_, ?_, ?_⟩ ?_
  · show (1 : UInt32).toNat = world.holders place + 1
    rw [holders, UInt32.toNat_one]
  · exact iff_of_false bucket (by simp)
  · show 0 + world.pending place = if world.holders place + 1 = 0 then 1 else 0
    rw [pending, if_neg (by omega)]
  · intro key' other found
    obtain ⟨node, there, keyed⟩ := invariant.keyed key' other found
    have different : other ≠ place := by
      rintro rfl
      rw [unused] at there
      cases there
    exact ⟨node, by rw [← there]; exact Function.update_of_ne different _ _, keyed⟩

theorem RefInvariant.free (invariant : RefInvariant world) (there : world.nodes place = some n)
    (due : (thread, place) ∈ world.disposing) : RefInvariant { world with
      nodes := Function.update world.nodes place (some { n with freed := n.freed + 1 })
      disposing := world.disposing.erase (thread, place) } := by
  have before := invariant.sound place n there
  have erased := countP_erase_place due
  refine invariant.touch rfl (fun other different => ⟨rfl, ?_, Iff.rfl⟩) ?_
    (invariant.keyed_update there rfl)
  · have kept := erased other
    rw [if_neg (Ne.symm different), Nat.add_zero] at kept
    exact kept
  · have given := erased place
    rw [if_pos rfl] at given
    rw [RefWorld.pending, ← given] at before
    exact before.free

theorem RefInvariant.step [DecidableEq Key] {next : RefWorld Key} (invariant : RefInvariant world)
    (step : RefStep world next) (bounded : next.Bounded) : RefInvariant next := by
  cases step with
  | create place key unused => exact invariant.create key unused
  | add thread place ready there created => exact invariant.add there created
  | get thread place ready there found => exact invariant.get there found bounded
  | put thread place ready there held => exact invariant.put there held
  | remove thread place ready there found => exact invariant.remove there found
  | free thread place there due => exact invariant.free there due

end Steps

theorem RefRun.invariant [DecidableEq Key] {history : List (RefWorld Key)} {world : RefWorld Key}
    (run : RefRun history world) (bounded : ∀ visited ∈ history, visited.Bounded)
    (last : world.Bounded) : RefInvariant world := by
  induction run with
  | start =>
    refine ⟨?_, ?_, ?_⟩
    · rintro place n ⟨⟩
    · refine fun place _ => ⟨rfl, rfl, ?_⟩
      rintro ⟨key, ⟨⟩⟩
    · rintro key place ⟨⟩
  | @step history world next run step inductionHypothesis =>
    have before := inductionHypothesis
      (fun visited member => bounded visited (List.mem_append_left _ member))
      (bounded world (List.mem_append_right _ (List.mem_singleton_self _)))
    exact before.step step last

/-- What is claimed of the nodes. -/
structure RefCountSound (world : RefWorld Key) : Prop where
  once : ∀ place n, world.nodes place = some n → n.freed + world.pending place ≤ 1
  unreferenced : ∀ place n, world.nodes place = some n → 0 < n.freed + world.pending place →
    ¬ world.InBucket place ∧ ∀ thread, (thread, place) ∉ world.holds
  released : ∀ place n, world.nodes place = some n → n.stage = .removed →
    (∀ thread, (thread, place) ∉ world.holds) → (∀ thread, (thread, place) ∉ world.disposing) →
    n.freed = 1

theorem not_mem_of_countP {pairs : List (Nat × Nat)} {place : Nat} :
    pairs.countP (·.2 = place) = 0 ↔ ∀ thread, (thread, place) ∉ pairs := by
  rw [List.countP_eq_zero]
  constructor
  · exact fun none thread member => none _ member (by simp)
  · intro none pair member same
    obtain ⟨thread, other⟩ := pair
    obtain rfl : other = place := by simpa using same
    exact none thread member

theorem RefInvariant.refCountSound {world : RefWorld Key} (invariant : RefInvariant world) :
    RefCountSound world where
  once := by
    intro place n there
    rw [(invariant.sound place n there).disposed]
    split <;> omega
  unreferenced := by
    intro place n there due
    obtain ⟨_, bucket, disposed⟩ := invariant.sound place n there
    have unowned : world.holders place + n.stage.own = 0 := by
      by_contra owned
      rw [disposed, if_neg owned] at due
      omega
    refine ⟨fun inBucket => ?_,
      not_mem_of_countP.mp (by exact Nat.eq_zero_of_add_eq_zero_right unowned)⟩
    rw [bucket.mp inBucket, NodeStage.own] at unowned
    omega
  released := by
    intro place n there removed unheld undisposed
    have disposed := (invariant.sound place n there).disposed
    have holders : world.holders place = 0 := not_mem_of_countP.mpr unheld
    have pending : world.pending place = 0 := not_mem_of_countP.mpr undisposed
    rw [holders, pending, removed, NodeStage.own] at disposed
    simpa using disposed

/-- In every run in which less than `2 ^ 32 - 1` references to a node are held at a time, `free_fn`
is called at most once for each node, only where no bucket and no thread has the node any more, and
it was called for every node that was removed and released by all, unless a thread is just about
to call it. -/
theorem ref_count_sound [DecidableEq Key] {history : List (RefWorld Key)} {world : RefWorld Key}
    (run : RefRun history world) (bounded : ∀ visited ∈ history, visited.Bounded)
    (last : world.Bounded) : RefCountSound world :=
  (run.invariant bounded last).refCountSound

/-- A node in the table to which the first threads hold one reference each. -/
def referenced (count : Nat) : RefWorld Nat where
  nodes := Function.update (fun _ => none) 0 (some ⟨1, UInt32.ofNat (count + 1), .inTable, 0⟩)
  table := Function.update (fun _ => none) 1 (some 0)
  holds := (List.range count).reverse.map fun thread => (thread, 0)
  disposing := []

theorem referenced_run (count : Nat) : ∃ history, RefRun history (referenced count) ∧
    ∀ visited ∈ history, visited.holds.length ≤ count := by
  induction count with
  | zero =>
    have made := RefRun.start.step (.create 0 1 rfl)
    have added := made.step (.add 0 0 (by simp [RefWorld.Ready, refStart]) rfl rfl)
    refine ⟨_, cast (congrArg _ ?_) added, by simp [refStart]⟩
    simp [RefWorld.htableAdd, refStart, referenced]
  | succ count inductionHypothesis =>
    obtain ⟨history, run, few⟩ := inductionHypothesis
    have got := run.step (.get count 0 (by simp [RefWorld.Ready, referenced]) rfl rfl)
    refine ⟨_, cast (congrArg _ ?_) got, fun visited member => ?_⟩
    · simp [RefWorld.htableGet, referenced, CountedNode.nodeGet, List.range_succ]
    · rcases List.mem_append.mp member with earlier | now
      · exact (few visited earlier).trans (Nat.le_succ count)
      · rw [List.mem_singleton.mp now]
        simp [referenced]

theorem bounded_of_length {world : RefWorld Key} (few : world.holds.length < 2 ^ 32 - 1) :
    world.Bounded := by
  intro place
  have counted : world.holders place ≤ world.holds.length := List.countP_le_length
  omega

/-- A count that wrapped to one frees a node that is in the table. -/
theorem referenced_unsound {count : Nat} (some : 0 < count) (wrapped : UInt32.ofNat (count + 1) = 1) :
    ∃ history world, RefRun history world ∧ ¬ RefCountSound (world : RefWorld Nat) := by
  obtain ⟨history, run, _⟩ := referenced_run count
  have released := run.step (.put 0 0 (by simp [RefWorld.Ready, referenced]) rfl
    (by simpa [referenced] using some))
  refine ⟨_, _, released, fun sound => ?_⟩
  have apart := sound.unreferenced 0 _ rfl
    (by simp [RefWorld.pending, RefWorld.put, referenced, CountedNode.nodePut, wrapped])
  exact apart.1 ⟨1, rfl⟩

/-- With `2 ^ 32` threads that hold a reference each, the first one to release its reference frees
the node while it is in the table. -/
theorem ref_count_wraps : ∃ history world, RefRun history world ∧ ¬ RefCountSound (world : RefWorld Nat) :=
  @referenced_unsound (2 ^ 32) (by decide) (by decide)

/-- Two threads hold a reference to one node. -/
theorem ref_count_sound_two_threads :
    (referenced 2).holds = [(1, 0), (0, 0)] ∧ RefCountSound (referenced 2) := by
  obtain ⟨history, run, few⟩ := referenced_run 2
  have bounded := fun visited member =>
    bounded_of_length (lt_of_le_of_lt (few visited member) (by decide))
  exact ⟨rfl, ref_count_sound run bounded (bounded_of_length (by decide))⟩

end Lwmsg
