/-
This file models what `main` of the server takes before it starts its threads and gives back behind
them: the contexts of `reg_ctx_init` and `worker_ctx_init`, the tables and the eventfd, and the
labels that `main` goes to where something fails. Everything that can fail fails at times.

What is held has a name, and a name that is taken twice, or given back where it is not held, is a
failure of the model.
-/

import Lwmsg.ServCfg
import Mathlib.Data.Finset.Basic
import Mathlib.Data.Finset.Lattice.Lemmas

namespace Lwmsg

/-! ### What is held -/

/-- What `main` and the contexts of its threads have to give back. -/
inductive ServerResource
  | serverCfg
  | zlog
  | shutdownEfd
  | whitelist
  | stdIpblockTbl
  | clientTbl
  | regCtx
  | regDb
  | regIpblockTbl
  | regChangedEfd
  | workerCtxs
  | workerDb (thrdId : Nat)
  | workerThrds
  deriving DecidableEq, Repr

/-- What is held at a moment, and how many references to the `SSL_CTX` there are. -/
structure Holdings where
  live : Finset ServerResource
  sslRefs : Nat

namespace Holdings

/-- Something is opened or allocated. It would be lost if it were held already. -/
def create (holdings : Holdings) (resource : ServerResource) : Option Holdings :=
  if resource ∈ holdings.live then none
  else some { holdings with live := insert resource holdings.live }

/-- Something is closed or freed. It must be held. -/
def release (holdings : Holdings) (resource : ServerResource) : Option Holdings :=
  if resource ∈ holdings.live then some { holdings with live := holdings.live.erase resource }
  else none

/-- `if (p) free(p)`. -/
def releaseIf (holdings : Holdings) (pointer : Option ServerResource) : Option Holdings :=
  match pointer with
  | none => some holdings
  | some resource => holdings.release resource

/-- `if (ssl_ctx) SSL_CTX_up_ref(ssl_ctx)`. -/
def sslCtxUpRef (holdings : Holdings) (sslCtx : Bool) : Holdings :=
  if sslCtx then { holdings with sslRefs := holdings.sslRefs + 1 } else holdings

/-- `if (ssl_ctx) SSL_CTX_free(ssl_ctx)`. -/
def sslCtxFree (holdings : Holdings) (sslCtx : Bool) : Option Holdings :=
  if sslCtx then
    if 0 < holdings.sslRefs then some { holdings with sslRefs := holdings.sslRefs - 1 } else none
  else some holdings

end Holdings

/-! ### The contexts of the threads -/

/-- `reg_thrd_ctx`, as far as it owns something. -/
structure RegThrdCtx where
  dbRwHandle : Option ServerResource
  sslCtx : Bool
  regIpblockTbl : Option ServerResource
  flgRegChanged : Option ServerResource

/-- `worker_thrd_ctx`, as far as it owns something. -/
structure WorkerThrdCtx where
  dbRdonlyHandle : Option ServerResource
  sslCtx : Bool
  thrdId : Nat

/-- `reg_ctx_init`. What is not opened is no reason to stop: the context is made in any case, and
the result says whether it can be used. -/
def regCtxInit (holdings : Holdings) (sslCtx dbOpens efdOpens : Bool) :
    Option (Bool × RegThrdCtx × Holdings) := do
  let holdings ← if dbOpens then holdings.create .regDb else some holdings
  let holdings ← holdings.create .regIpblockTbl
  let holdings ← if efdOpens then holdings.create .regChangedEfd else some holdings
  let holdings ← holdings.create .regCtx
  let regCtx :=
    { dbRwHandle := if dbOpens then some .regDb else none
      sslCtx
      regIpblockTbl := some .regIpblockTbl
      flgRegChanged := if efdOpens then some .regChangedEfd else none }
  return (dbOpens && efdOpens, regCtx, holdings.sslCtxUpRef sslCtx)

/-- `reg_ctx_free`. -/
def regCtxFree (holdings : Holdings) (rtCtx : RegThrdCtx) : Option Holdings := do
  let holdings ← holdings.releaseIf rtCtx.regIpblockTbl
  let holdings ← holdings.releaseIf rtCtx.dbRwHandle
  let holdings ← holdings.releaseIf rtCtx.flgRegChanged
  let holdings ← holdings.sslCtxFree rtCtx.sslCtx
  holdings.release .regCtx

/-- The loop of `worker_ctx_init` from `i` on, with the contexts it completes. -/
def workerCtxInitLoop (sslCtx : Bool) (dbOpens : Nat → Bool) :
    Nat → Nat → Holdings → Option (List WorkerThrdCtx × Holdings)
  | 0, _, holdings => some ([], holdings)
  | left + 1, i, holdings =>
    if dbOpens i then do
      let holdings ← holdings.create (.workerDb i)
      let (wtCtx, holdings) ←
        workerCtxInitLoop sslCtx dbOpens left (i + 1) (holdings.sslCtxUpRef sslCtx)
      return ({ dbRdonlyHandle := some (.workerDb i), sslCtx, thrdId := i } :: wtCtx, holdings)
    else some ([], holdings)

/-- `worker_ctx_init`. The number it returns is that of the contexts. -/
def workerCtxInit (holdings : Holdings) (n : Nat) (sslCtx : Bool) (dbOpens : Nat → Bool) :
    Option (List WorkerThrdCtx × Holdings) := do
  let holdings ← holdings.create .workerCtxs
  workerCtxInitLoop sslCtx dbOpens n 0 holdings

/-- The loop of `worker_ctx_free`. -/
def workerCtxFreeLoop : List WorkerThrdCtx → Holdings → Option Holdings
  | [], holdings => some holdings
  | wtCtx :: rest, holdings => do
    let holdings ← holdings.releaseIf wtCtx.dbRdonlyHandle
    let holdings ← holdings.sslCtxFree wtCtx.sslCtx
    workerCtxFreeLoop rest holdings

/-- `worker_ctx_free`. -/
def workerCtxFree (holdings : Holdings) (wtCtxs : List WorkerThrdCtx) : Option Holdings := do
  let holdings ← workerCtxFreeLoop wtCtxs holdings
  holdings.release .workerCtxs

/-! ### The beginning and the end of `main` -/

/-- What can go one way or another while `main` sets up. -/
structure SetupOutcome where
  zlogStarts : Bool
  tlsStarts : Bool
  interfaceValid : Bool
  shutdownEfdOpens : Bool
  regDbOpens : Bool
  regEfdOpens : Bool
  workerDbOpens : Nat → Bool
  nrProcs : Nat

/-- The variables of `main` that it needs for its end. -/
structure MainFrame where
  sslCtx : Bool
  rtCtx : RegThrdCtx
  wtCtx : List WorkerThrdCtx

/-- The label `zlog_init_fail`. -/
def zlogInitFail (holdings : Holdings) : Option Holdings := holdings.release .serverCfg

/-- The label `cfg_init_fail`. -/
def cfgInitFail (holdings : Holdings) (sslCtx : Bool) : Option Holdings := do
  let holdings ← holdings.release .zlog
  let holdings ← holdings.sslCtxFree sslCtx
  zlogInitFail holdings

/-- The label `reg_thrd_ctx_init_fail`. -/
def regThrdCtxInitFail (holdings : Holdings) (sslCtx : Bool) (rtCtx : RegThrdCtx) :
    Option Holdings := do
  let holdings ← regCtxFree holdings rtCtx
  let holdings ← holdings.release .whitelist
  let holdings ← holdings.release .shutdownEfd
  cfgInitFail holdings sslCtx

/-- The label `wrk_thrd_ctx_init_fail`. -/
def wrkThrdCtxInitFail (holdings : Holdings) (frame : MainFrame) : Option Holdings := do
  let holdings ← workerCtxFree holdings frame.wtCtx
  let holdings ← holdings.release .clientTbl
  let holdings ← holdings.release .stdIpblockTbl
  regThrdCtxInitFail holdings frame.sslCtx frame.rtCtx

/-- The label `thrd_startup_failed`, behind the calls of `pthread_join`. -/
def thrdStartupFailed (holdings : Holdings) (frame : MainFrame) : Option Holdings := do
  let holdings ← holdings.release .workerThrds
  wrkThrdCtxInitFail holdings frame

/-- `num_worker_threads`, which has eight bits. -/
def numWorkerThreads (cfg : ServCfg) (outcome : SetupOutcome) : Nat :=
  if cfg.int .autoconfNrThreads ≠ 0 then outcome.nrProcs % 256
  else (cfg.int .nrWorkerThreads).toNat % 256

/-- What `setup_tls` leaves in `ssl_ctx`: a context, or `NULL`. -/
def setupTls (cfg : ServCfg) (outcome : SetupOutcome) : Bool :=
  decide (cfg.int .useTls ≠ 0) && outcome.tlsStarts

/-- `main` from `reg_ctx_init` to where it creates the first thread. Without variables it does not
come there: it has gone to one of its labels and is about to return. -/
def mainContexts (outcome : SetupOutcome) (holdings : Holdings) (sslCtx : Bool) (n : Nat) :
    Option (Holdings × Option MainFrame) := do
  let (res, rtCtx, holdings) ← regCtxInit holdings sslCtx outcome.regDbOpens outcome.regEfdOpens
  if ¬ res then return (← regThrdCtxInitFail holdings sslCtx rtCtx, none)
  let (wtCtx, holdings) ← workerCtxInit holdings n sslCtx outcome.workerDbOpens
  let frame : MainFrame := { sslCtx, rtCtx, wtCtx }
  if wtCtx.length < n then return (← wrkThrdCtxInitFail holdings frame, none)
  return (holdings, some frame)

/-- `main` from `load_cfg` to where it creates the first thread. -/
def mainSetup (cfg : ServCfg) (outcome : SetupOutcome) : Option (Holdings × Option MainFrame) := do
  let holdings ← ({ live := ∅, sslRefs := 0 } : Holdings).create .serverCfg
  if ¬ outcome.zlogStarts then return (← zlogInitFail holdings, none)
  let holdings ← holdings.create .zlog
  let sslCtx := setupTls cfg outcome
  let holdings := holdings.sslCtxUpRef sslCtx
  if cfg.int .useTls ≠ 0 ∧ ¬ sslCtx then return (← cfgInitFail holdings sslCtx, none)
  if ¬ outcome.interfaceValid then return (← cfgInitFail holdings sslCtx, none)
  if ¬ outcome.shutdownEfdOpens then return (← cfgInitFail holdings sslCtx, none)
  let holdings ← holdings.create .shutdownEfd
  let holdings ← holdings.create .whitelist
  let holdings ← holdings.create .stdIpblockTbl
  let holdings ← holdings.create .clientTbl
  mainContexts outcome holdings sslCtx (numWorkerThreads cfg outcome)

/-! ### What the setup holds -/

/-- The context of a worker that could open its database. -/
def workerCtx (sslCtx : Bool) (i : Nat) : WorkerThrdCtx where
  dbRdonlyHandle := some (.workerDb i)
  sslCtx := sslCtx
  thrdId := i

/-- The context of the registration thread, with what could be opened for it. -/
def regCtx (sslCtx dbOpens efdOpens : Bool) : RegThrdCtx where
  dbRwHandle := if dbOpens then some .regDb else none
  sslCtx := sslCtx
  regIpblockTbl := some .regIpblockTbl
  flgRegChanged := if efdOpens then some .regChangedEfd else none

/-- What this context owns. -/
def regOwned (dbOpens efdOpens : Bool) : Finset ServerResource :=
  {.regIpblockTbl} ∪ ((if dbOpens then {.regDb} else ∅) ∪
    ((if efdOpens then {.regChangedEfd} else ∅) ∪ {.regCtx}))

def workerDbs (workers : List Nat) : Finset ServerResource :=
  (workers.map .workerDb).toFinset

/-- What every start of the server takes that comes to its threads. -/
def baseLive : Finset ServerResource := {.whitelist, .shutdownEfd, .zlog, .serverCfg}

def tablesLive : Finset ServerResource := {.clientTbl, .stdIpblockTbl} ∪ baseLive

/-- What is held for the threads. -/
def setupLive (workers : Nat) : Finset ServerResource :=
  insert .workerCtxs (tablesLive ∪ regOwned true true) ∪ workerDbs (List.range workers)

/-- How many references there are to a context that so many hold. -/
def sslHeld (sslCtx : Bool) (holders : Nat) : Nat := if sslCtx then holders else 0

section Setup

variable {live : Finset ServerResource} {sslCtx : Bool} {refs : Nat}

theorem mem_workerDbs {workers : List Nat} {resource : ServerResource} :
    resource ∈ workerDbs workers ↔ ∃ i ∈ workers, .workerDb i = resource := by
  simp [workerDbs]

theorem workerDbs_cons (i : Nat) (rest : List Nat) :
    workerDbs (i :: rest) = insert (.workerDb i) (workerDbs rest) :=
  List.toFinset_cons

theorem Holdings.create_eq {resource : ServerResource} (fresh : resource ∉ live) :
    Holdings.create ⟨live, refs⟩ resource = some ⟨insert resource live, refs⟩ := if_neg fresh

theorem Holdings.sslCtxUpRef_eq (live : Finset ServerResource) (sslCtx : Bool) (refs : Nat) :
    Holdings.sslCtxUpRef ⟨live, sslHeld sslCtx refs⟩ sslCtx =
      ⟨live, sslHeld sslCtx (refs + 1)⟩ := by
  cases sslCtx <;> rfl

/-- The workers' contexts that are completed are the first ones. -/
theorem workerCtxInitLoop_spec (sslCtx : Bool) (dbOpens : Nat → Bool) (left i refs : Nat)
    (live : Finset ServerResource) (fresh : ∀ j, i ≤ j → .workerDb j ∉ live) : ∃ count ≤ left,
    workerCtxInitLoop sslCtx dbOpens left i ⟨live, sslHeld sslCtx refs⟩ =
      some ((List.range' i count).map (workerCtx sslCtx),
        ⟨live ∪ workerDbs (List.range' i count), sslHeld sslCtx (refs + count)⟩) := by
  induction left generalizing i refs live with
  | zero => exact ⟨0, le_rfl, by simp [workerCtxInitLoop, workerDbs]⟩
  | succ left ih =>
    by_cases opens : dbOpens i = true
    · have later : ∀ j, i + 1 ≤ j → .workerDb j ∉ insert (ServerResource.workerDb i) live := by
        intro j above
        rw [Finset.mem_insert, not_or]
        exact ⟨by simp; omega, fresh j (by omega)⟩
      obtain ⟨count, few, rest⟩ := ih (i + 1) (refs + 1) _ later
      refine ⟨count + 1, by omega, ?_⟩
      rw [workerCtxInitLoop, if_pos opens, Holdings.create, if_neg (fresh i le_rfl)]
      simp only [Option.bind_eq_bind, Option.bind_some, Holdings.sslCtxUpRef_eq, rest]
      have all : insert (ServerResource.workerDb i) live ∪ workerDbs (List.range' (i + 1) count) =
          live ∪ workerDbs (List.range' i (count + 1)) := by
        rw [List.range'_succ, workerDbs_cons, Finset.insert_union, Finset.union_insert]
      rw [all, List.range'_succ, Nat.add_right_comm]
      rfl
    · refine ⟨0, Nat.zero_le _, ?_⟩
      rw [workerCtxInitLoop, if_neg opens]
      simp [workerDbs]

theorem regCtxInit_spec (sslCtx dbOpens efdOpens : Bool) :
    regCtxInit ⟨tablesLive, sslHeld sslCtx 1⟩ sslCtx dbOpens efdOpens =
      some (dbOpens && efdOpens, regCtx sslCtx dbOpens efdOpens,
        ⟨tablesLive ∪ regOwned dbOpens efdOpens, sslHeld sslCtx 2⟩) := by
  cases dbOpens <;> cases efdOpens <;>
    simp (disch := decide) only [regCtxInit, Holdings.create_eq, if_true, if_false,
      Bool.false_eq_true, Option.bind_eq_bind, Option.bind_some, Holdings.sslCtxUpRef_eq] <;>
    exact congrArg (fun live => some (_, _, Holdings.mk live _)) (by decide)

end Setup

/-! ### What the labels give back -/

/-- Something gives back what it is said to own, and as many references to the `SSL_CTX`. -/
def GivesBack (sslCtx : Bool) (action : Holdings → Option Holdings)
    (owned : Finset ServerResource) (count : Nat) : Prop :=
  ∀ live refs, owned ⊆ live →
    action ⟨live, sslHeld sslCtx (refs + count)⟩ = some ⟨live \ owned, sslHeld sslCtx refs⟩

section Cleanup

variable {sslCtx : Bool} {first second : Holdings → Option Holdings}
  {owned others : Finset ServerResource} {count more : Nat}

theorem givesBack_nothing : GivesBack sslCtx some ∅ 0 := fun live refs _ => by
  rw [Finset.sdiff_empty, Nat.add_zero]

/-- Two actions in a row give back what both own, if nothing is given back twice. -/
theorem GivesBack.andThen (gives : GivesBack sslCtx first owned count)
    (givesMore : GivesBack sslCtx second others more) (apart : Disjoint owned others) :
    GivesBack sslCtx (fun holdings => do second (← first holdings)) (owned ∪ others)
      (count + more) := fun live refs held => by
  obtain ⟨ofFirst, ofSecond⟩ := Finset.union_subset_iff.mp held
  have kept : others ⊆ live \ owned := Finset.subset_sdiff.mpr ⟨ofSecond, apart.symm⟩
  show (first _).bind second = _
  rw [Nat.add_comm count, ← Nat.add_assoc, gives live (refs + more) ofFirst, Option.bind_some,
    givesMore _ refs kept, sdiff_sdiff_left]
  rfl

theorem givesBack_release (sslCtx : Bool) (resource : ServerResource) :
    GivesBack sslCtx (·.release resource) {resource} 0 := fun live refs held => by
  refine (if_pos (Finset.singleton_subset_iff.mp held)).trans ?_
  rw [Finset.erase_eq]
  rfl

theorem givesBack_releaseIf (opens : Bool) (resource : ServerResource) :
    GivesBack sslCtx (·.releaseIf (if opens then some resource else none))
      (if opens then {resource} else ∅) 0 := by
  cases opens with
  | false => exact givesBack_nothing
  | true => exact givesBack_release sslCtx resource

theorem givesBack_sslCtxFree : GivesBack sslCtx (·.sslCtxFree sslCtx) ∅ 1 := fun live refs _ => by
  cases sslCtx with
  | false => rw [Finset.sdiff_empty]; rfl
  | true => simp [Holdings.sslCtxFree, sslHeld]

/-- With a reference to the `SSL_CTX`. -/
theorem GivesBack.withRef (gives : GivesBack sslCtx second others more) :
    GivesBack sslCtx (fun holdings => do second (← holdings.sslCtxFree sslCtx)) others
      (more + 1) := by
  have all := givesBack_sslCtxFree.andThen gives (Finset.disjoint_empty_left _)
  rwa [Finset.empty_union, Nat.add_comm] at all

/-- The loop of `worker_ctx_free` gives back what the contexts own. -/
theorem givesBack_workerCtxFreeLoop (sslCtx : Bool) (workers : List Nat)
    (distinct : workers.Nodup) :
    GivesBack sslCtx (workerCtxFreeLoop (workers.map (workerCtx sslCtx))) (workerDbs workers)
      workers.length := by
  induction workers with
  | nil => exact givesBack_nothing
  | cons i rest ih =>
    obtain ⟨notAgain, distinct⟩ := List.nodup_cons.mp distinct
    have apart : Disjoint {.workerDb i} (workerDbs rest) := by
      rw [Finset.disjoint_singleton_left, mem_workerDbs]
      rintro ⟨j, listed, same⟩
      cases same
      exact notAgain listed
    have all := (givesBack_release sslCtx (.workerDb i)).andThen (ih distinct).withRef apart
    rw [← Finset.insert_eq, ← workerDbs_cons, Nat.zero_add] at all
    exact all

theorem givesBack_regCtxFree (dbOpens efdOpens : Bool) :
    GivesBack sslCtx (regCtxFree · (regCtx sslCtx dbOpens efdOpens)) (regOwned dbOpens efdOpens)
      1 := by
  have db : Disjoint (if dbOpens then {.regDb} else ∅ : Finset ServerResource)
      ((if efdOpens then {.regChangedEfd} else ∅) ∪ {.regCtx}) := by
    cases dbOpens <;> cases efdOpens <;> decide
  have efd : Disjoint (if efdOpens then {.regChangedEfd} else ∅ : Finset ServerResource)
      {.regCtx} := by
    cases efdOpens <;> decide
  have table : Disjoint ({.regIpblockTbl} : Finset ServerResource)
      ((if dbOpens then {.regDb} else ∅) ∪
        ((if efdOpens then {.regChangedEfd} else ∅) ∪ {.regCtx})) := by
    cases dbOpens <;> cases efdOpens <;> decide
  exact (givesBack_release sslCtx .regIpblockTbl).andThen
    ((givesBack_releaseIf dbOpens .regDb).andThen
      ((givesBack_releaseIf efdOpens .regChangedEfd).andThen
        (givesBack_release sslCtx .regCtx).withRef efd) db) table

theorem givesBack_cfgInitFail :
    GivesBack sslCtx (cfgInitFail · sslCtx) ({.zlog} ∪ {.serverCfg}) 1 :=
  (givesBack_release sslCtx .zlog).andThen (givesBack_release sslCtx .serverCfg).withRef (by decide)

theorem givesBack_regThrdCtxInitFail (dbOpens efdOpens : Bool) :
    GivesBack sslCtx (regThrdCtxInitFail · sslCtx (regCtx sslCtx dbOpens efdOpens))
      (regOwned dbOpens efdOpens ∪ baseLive) 2 := by
  have apart : Disjoint (regOwned dbOpens efdOpens) baseLive := by
    cases dbOpens <;> cases efdOpens <;> decide
  exact (givesBack_regCtxFree dbOpens efdOpens).andThen
    ((givesBack_release sslCtx .whitelist).andThen
      ((givesBack_release sslCtx .shutdownEfd).andThen givesBack_cfgInitFail (by decide))
      (by decide)) apart

/-- The variables of `main` where it has set up for so many workers. -/
def mainFrame (sslCtx : Bool) (workers : Nat) : MainFrame where
  sslCtx := sslCtx
  rtCtx := regCtx sslCtx true true
  wtCtx := (List.range workers).map (workerCtx sslCtx)

theorem disjoint_workerDbs (workers : List Nat)
    (others : ∀ i, .workerDb i ∉ owned) : Disjoint (workerDbs workers) owned :=
  Finset.disjoint_left.mpr fun resource isDb member => by
    obtain ⟨i, _, rfl⟩ := mem_workerDbs.mp isDb
    exact others i member

theorem givesBack_wrkThrdCtxInitFail (sslCtx : Bool) (workers : Nat) :
    GivesBack sslCtx (wrkThrdCtxInitFail · (mainFrame sslCtx workers)) (setupLive workers)
      (workers + 2) := by
  have freed : GivesBack sslCtx (workerCtxFree · (mainFrame sslCtx workers).wtCtx)
      (workerDbs (List.range workers) ∪ {.workerCtxs}) workers := by
    have all := (givesBack_workerCtxFreeLoop sslCtx (List.range workers)
      List.nodup_range).andThen (givesBack_release sslCtx .workerCtxs)
      (disjoint_workerDbs _ fun i => by simp)
    rwa [List.length_range] at all
  have tables := (givesBack_release sslCtx .stdIpblockTbl).andThen
    (givesBack_regThrdCtxInitFail true true) (by decide)
  have rest := (givesBack_release sslCtx .clientTbl).andThen tables (by decide)
  have apart : Disjoint (workerDbs (List.range workers) ∪ {.workerCtxs})
      ({.clientTbl} ∪ ({.stdIpblockTbl} ∪ (regOwned true true ∪ baseLive))) := by
    rw [Finset.disjoint_union_left]
    exact ⟨disjoint_workerDbs _ fun i => by simp [regOwned, baseLive], by decide⟩
  have all := freed.andThen rest apart
  have same : workerDbs (List.range workers) ∪ {.workerCtxs} ∪
      ({.clientTbl} ∪ ({.stdIpblockTbl} ∪ (regOwned true true ∪ baseLive))) =
        setupLive workers := by
    rw [Finset.union_assoc, setupLive, Finset.union_comm]
    exact congrArg (· ∪ workerDbs (List.range workers)) (by decide)
  rw [same] at all
  exact all

/-- What gives back all that is held leaves nothing. -/
theorem GivesBack.all (gives : GivesBack sslCtx first owned count) :
    first ⟨owned, sslHeld sslCtx count⟩ = some ⟨∅, 0⟩ := by
  have given := gives owned 0 (Finset.Subset.refl owned)
  rwa [Nat.zero_add, Finset.sdiff_self, sslHeld, sslHeld, ite_self] at given

theorem givesBack_thrdStartupFailed (workers : Nat) :
    GivesBack sslCtx (thrdStartupFailed · (mainFrame sslCtx workers))
      (insert .workerThrds (setupLive workers)) (workers + 2) := by
  have apart : Disjoint {.workerThrds} (setupLive workers) := by
    rw [setupLive, Finset.disjoint_union_right]
    exact ⟨by decide, (disjoint_workerDbs _ fun i => by simp).symm⟩
  have all := (givesBack_release sslCtx .workerThrds).andThen
    (givesBack_wrkThrdCtxInitFail sslCtx workers) apart
  rw [Nat.zero_add] at all
  rw [Finset.insert_eq]
  exact all

end Cleanup

/-! ### Where `main` is when it has set up -/

/-- `main` comes to `reg_ctx_init`, which fails. -/
def SetupOutcome.regCtxFails (outcome : SetupOutcome) (cfg : ServCfg) : Prop :=
  outcome.zlogStarts ∧ (cfg.int .useTls ≠ 0 → outcome.tlsStarts) ∧ outcome.interfaceValid ∧
    outcome.shutdownEfdOpens ∧ ¬ (outcome.regDbOpens ∧ outcome.regEfdOpens)

/-- What there can be when `main` has set up: the threads can start, or all is given back, but for
two tables where `reg_ctx_init` fails. -/
inductive SetUp (cfg : ServCfg) (outcome : SetupOutcome) : Holdings → Option MainFrame → Prop
  | ready : SetUp cfg outcome
      ⟨setupLive (numWorkerThreads cfg outcome),
        sslHeld (setupTls cfg outcome) (numWorkerThreads cfg outcome + 2)⟩
      (some (mainFrame (setupTls cfg outcome) (numWorkerThreads cfg outcome)))
  | leaked (fails : outcome.regCtxFails cfg) :
      SetUp cfg outcome ⟨{.clientTbl, .stdIpblockTbl}, 0⟩ none
  | aborted (succeeds : ¬ outcome.regCtxFails cfg) : SetUp cfg outcome ⟨∅, 0⟩ none

section Begin

variable {cfg : ServCfg} {outcome : SetupOutcome}

/-- `reg_ctx_init` fails, and what it could open is given back. -/
theorem mainContexts_leaked (sslCtx : Bool) (n : Nat)
    (fails : (outcome.regDbOpens && outcome.regEfdOpens) = false) :
    mainContexts outcome ⟨tablesLive, sslHeld sslCtx 1⟩ sslCtx n =
      some (⟨{.clientTbl, .stdIpblockTbl}, 0⟩, none) := by
  have ofReg : regOwned outcome.regDbOpens outcome.regEfdOpens ∪ baseLive ⊆
      tablesLive ∪ regOwned outcome.regDbOpens outcome.regEfdOpens := by
    cases outcome.regDbOpens <;> cases outcome.regEfdOpens <;> decide
  have rest : (tablesLive ∪ regOwned outcome.regDbOpens outcome.regEfdOpens) \
      (regOwned outcome.regDbOpens outcome.regEfdOpens ∪ baseLive) =
        {.clientTbl, .stdIpblockTbl} := by
    cases outcome.regDbOpens <;> cases outcome.regEfdOpens <;> decide
  have given : regThrdCtxInitFail
      ⟨tablesLive ∪ regOwned outcome.regDbOpens outcome.regEfdOpens, sslHeld sslCtx 2⟩ sslCtx
      (regCtx sslCtx outcome.regDbOpens outcome.regEfdOpens) =
        some ⟨{.clientTbl, .stdIpblockTbl}, 0⟩ := by
    rw [← rest]
    refine (givesBack_regThrdCtxInitFail _ _ _ 0 ofReg).trans ?_
    rw [sslHeld, ite_self]
  rw [mainContexts, regCtxInit_spec, Option.bind_eq_bind, Option.bind_some]
  simp only [fails, Bool.false_eq_true, not_false_eq_true, if_true]
  rw [given]
  rfl

/-- `reg_ctx_init` succeeds. The workers' contexts are made or given back, and then all is. -/
theorem mainContexts_made (sslCtx : Bool) (n : Nat)
    (succeeds : (outcome.regDbOpens && outcome.regEfdOpens) = true) :
    mainContexts outcome ⟨tablesLive, sslHeld sslCtx 1⟩ sslCtx n = some (⟨∅, 0⟩, none) ∨
    mainContexts outcome ⟨tablesLive, sslHeld sslCtx 1⟩ sslCtx n =
      some (⟨setupLive n, sslHeld sslCtx (n + 2)⟩, some (mainFrame sslCtx n)) := by
  obtain ⟨db, efd⟩ := (Bool.and_eq_true _ _).mp succeeds
  obtain ⟨count, few, made⟩ := workerCtxInitLoop_spec sslCtx outcome.workerDbOpens n 0 2
    (insert .workerCtxs (tablesLive ∪ regOwned true true)) fun j _ => by
      simp [tablesLive, regOwned, baseLive]
  have ctxs : workerCtxInit ⟨tablesLive ∪ regOwned true true, sslHeld sslCtx 2⟩ n sslCtx
      outcome.workerDbOpens = some ((mainFrame sslCtx count).wtCtx,
        ⟨setupLive count, sslHeld sslCtx (count + 2)⟩) := by
    rw [workerCtxInit, Holdings.create_eq (by decide), Option.bind_eq_bind, Option.bind_some, made,
      ← List.range_eq_range', Nat.add_comm 2]
    rfl
  rw [mainContexts, regCtxInit_spec, Option.bind_eq_bind, Option.bind_some]
  simp only [db, efd, Bool.and_self, not_true_eq_false, if_false]
  rw [ctxs, Option.bind_eq_bind, Option.bind_some]
  have length : (mainFrame sslCtx count).wtCtx.length = count := by simp [mainFrame]
  simp only [length]
  by_cases missing : count < n
  · refine .inl ?_
    rw [if_pos missing]
    have given := (givesBack_wrkThrdCtxInitFail sslCtx count).all
    show (wrkThrdCtxInitFail _ (mainFrame sslCtx count)).bind _ = _
    rw [given]
    rfl
  · obtain rfl : count = n := by omega
    refine .inr ?_
    rw [if_neg missing]
    rfl

/-- The eventfd and the tables are taken in a row. -/
theorem create_tables (sslCtx : Bool) (refs : Nat)
    (continuation : Holdings → Option (Holdings × Option MainFrame)) : (do
      let holdings ← Holdings.create ⟨{.zlog, .serverCfg}, sslHeld sslCtx refs⟩ .shutdownEfd
      let holdings ← holdings.create .whitelist
      let holdings ← holdings.create .stdIpblockTbl
      let holdings ← holdings.create .clientTbl
      continuation holdings) = continuation ⟨tablesLive, sslHeld sslCtx refs⟩ := by
  simp only [Option.bind_eq_bind]
  rw [Holdings.create_eq (by decide), Option.bind_some, Holdings.create_eq (by decide),
    Option.bind_some, Holdings.create_eq (by decide), Option.bind_some,
    Holdings.create_eq (by decide), Option.bind_some]
  exact congrArg (fun live => continuation ⟨live, _⟩) (by decide)

/-- `main` gives back all where it stops in front of the tables. -/
theorem mainSetup_eq (cfg : ServCfg) (outcome : SetupOutcome) : mainSetup cfg outcome =
    if ¬ outcome.zlogStarts then some (⟨∅, 0⟩, none)
    else if cfg.int .useTls ≠ 0 ∧ ¬ setupTls cfg outcome then some (⟨∅, 0⟩, none)
    else if ¬ outcome.interfaceValid then some (⟨∅, 0⟩, none)
    else if ¬ outcome.shutdownEfdOpens then some (⟨∅, 0⟩, none)
    else mainContexts outcome ⟨tablesLive, sslHeld (setupTls cfg outcome) 1⟩
      (setupTls cfg outcome) (numWorkerThreads cfg outcome) := by
  have onlyCfg : Holdings.create ⟨∅, 0⟩ .serverCfg = some ⟨{.serverCfg}, 0⟩ :=
    Holdings.create_eq (by decide)
  have zlog : Holdings.create ⟨{.serverCfg}, 0⟩ .zlog = some ⟨{.zlog, .serverCfg}, 0⟩ :=
    Holdings.create_eq (by decide)
  have noZlog : zlogInitFail ⟨{.serverCfg}, 0⟩ = some ⟨∅, 0⟩ :=
    (givesBack_release false .serverCfg).all
  have context : Holdings.sslCtxUpRef ⟨{.zlog, .serverCfg}, 0⟩ (setupTls cfg outcome) =
      ⟨{.zlog, .serverCfg}, sslHeld (setupTls cfg outcome) 1⟩ := by
    cases setupTls cfg outcome <;> rfl
  have stops : cfgInitFail ⟨{.zlog, .serverCfg}, sslHeld (setupTls cfg outcome) 1⟩
      (setupTls cfg outcome) = some ⟨∅, 0⟩ := givesBack_cfgInitFail.all
  rw [mainSetup, onlyCfg, Option.bind_eq_bind, Option.bind_some, noZlog, zlog]
  simp only [Option.bind_some, context, stops]
  rw [← create_tables _ _ fun holdings => mainContexts outcome holdings (setupTls cfg outcome)
    (numWorkerThreads cfg outcome)]
  rfl

theorem mainSetup_spec (cfg : ServCfg) (outcome : SetupOutcome) : ∃ holdings frame,
    mainSetup cfg outcome = some (holdings, frame) ∧ SetUp cfg outcome holdings frame := by
  rw [mainSetup_eq]
  by_cases zlogStarts : outcome.zlogStarts = true
  · rw [if_neg (not_not.mpr zlogStarts)]
    by_cases tlsFails : cfg.int .useTls ≠ 0 ∧ ¬ setupTls cfg outcome
    · rw [if_pos tlsFails]
      refine ⟨_, _, rfl, .aborted fun fails => tlsFails.2 ?_⟩
      rw [setupTls, fails.2.1 tlsFails.1, Bool.and_true, decide_eq_true tlsFails.1]
    · rw [if_neg tlsFails]
      by_cases interface : outcome.interfaceValid = true
      · rw [if_neg (not_not.mpr interface)]
        by_cases efd : outcome.shutdownEfdOpens = true
        · rw [if_neg (not_not.mpr efd)]
          have tls (wanted : cfg.int .useTls ≠ 0) : outcome.tlsStarts = true :=
            ((Bool.and_eq_true _ _).mp (not_not.mp fun failed => tlsFails ⟨wanted, failed⟩)).2
          cases made : outcome.regDbOpens && outcome.regEfdOpens with
          | false =>
            refine ⟨_, _, mainContexts_leaked _ _ made,
              .leaked ⟨zlogStarts, tls, interface, efd, fun opened => ?_⟩⟩
            rw [opened.1, opened.2] at made
            cases made
          | true =>
            have succeeds : ¬ outcome.regCtxFails cfg := fun fails =>
              fails.2.2.2.2 ((Bool.and_eq_true _ _).mp made)
            rcases mainContexts_made (setupTls cfg outcome) (numWorkerThreads cfg outcome) made with
              aborted | ready
            · exact ⟨_, _, aborted, .aborted succeeds⟩
            · exact ⟨_, _, ready, .ready⟩
        · rw [if_pos efd]
          exact ⟨_, _, rfl, .aborted fun fails => efd fails.2.2.2.1⟩
      · rw [if_pos interface]
        exact ⟨_, _, rfl, .aborted fun fails => interface fails.2.2.1⟩
  · rw [if_pos zlogStarts]
    exact ⟨_, _, rfl, .aborted fun fails => zlogStarts fails.1⟩

end Begin

end Lwmsg
