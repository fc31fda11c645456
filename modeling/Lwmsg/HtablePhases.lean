/-
This file says how a call in the hash table proceeds, as far as an observer sees it.

A call is observed when it begins, when it commits and when it answers. The statements of a thread
go through these in turn, so a call that adds, removes or looks up commits once between its
beginning and its end, with what it answers. A listing of the keys is only observed when it begins
and when it answers: the table has the listed keys at no one moment.
-/

import Lwmsg.HtableThreads

namespace Lwmsg

open Bytes Pointers

/-! ### How a call proceeds -/

/-- How far the call of a thread has come. -/
inductive CallPhase
  | idle
  | called (call : HtableCall)
  | committed (call : HtableCall) (answer : HtableAnswer)
  deriving DecidableEq, Repr

/-- What a call answers that amounts to something. -/
def HtableCall.answerTo : HtableCall → TableEvent → Option HtableAnswer
  | .add element, .add added _ result => if added = element then some (.added result) else none
  | .remove key, .remove removed => if removed = key then some .removed else none
  | .get key _, .get got target => if got = key then some (.found target) else none
  | _, _ => none

namespace CallPhase

/-- A call begins, commits once and answers what it committed. A listing of the keys has no moment
to commit at. -/
def observe : CallPhase → HtableAction → Option CallPhase
  | .idle, .call call => some (.called call)
  | .called call, .commit event => (call.answerTo event).map (.committed call)
  | .committed _ answer, .answer returned => if returned = answer then some .idle else none
  | .called .copyAllKeys, .answer (.keys _) => some .idle
  | _, _ => none

/-- A call that is about to return. -/
def returning : HtableCall → HtableAnswer → CallPhase
  | .copyAllKeys, .keys _ => .called .copyAllKeys
  | call, answer => .committed call answer

/-- One phase leads to another by what is observed, if anything is. -/
def Leads (phase : CallPhase) (action : Option HtableAction) (next : CallPhase) : Prop :=
  match action with
  | none => next = phase
  | some action => phase.observe action = some next

end CallPhase

/-- The phase of a call under the lock of its bucket. -/
def BucketPc.phase (call : HtableCall) : BucketPc → CallPhase
  | .clearAgain => .committed call (.added true)
  | .cut _ | .put _ | .uncount => .committed call .removed
  | .unlock answer => .returning call answer
  | _ => .called call

/-- The phase a thread is in. -/
def HtablePc.phase : HtablePc → CallPhase
  | .idle => .idle
  | .loadCount element | .loadThres element _ | .tryWrlock element | .resize element
  | .unlockResized element => .called (.add element)
  | .rdlock call | .hash call | .lockBucket call _ _ => .called call
  | .inBucket call _ _ pc => pc.phase call
  | .copyStart | .copyLock .. | .copyBucket .. | .copyNode .. | .copyUnlock .. =>
    .called .copyAllKeys
  | .unlockTable call answer | .answering call answer => .returning call answer

section Phases

variable {state next : HtableState} {index : Nat} {pc after : BucketPc} {event : Option TableEvent}
  {element : Addr} {key : Bytes} {refInc : Bool} {call : HtableCall}

theorem addStep_leads (step : addStep state element index pc = some (next, after, event)) :
    (pc.phase (.add element)).Leads (event.map .commit) (after.phase (.add element)) := by
  cases pc with
  | clear =>
    simp only [addStep, Option.bind_eq_bind, Option.bind_eq_some_iff] at step
    obtain ⟨_, _, step⟩ := step
    cases step
    rfl
  | readBucket =>
    simp only [addStep] at step
    split at step <;> cases step <;> rfl
  | compare prev comparator =>
    simp only [addStep, Option.bind_eq_bind, Option.bind_eq_some_iff] at step
    obtain ⟨node, _, other, _, step⟩ := step
    split_ifs at step
    · cases step
      exact congrArg (Option.map _) (if_pos rfl)
    · cases step
      rfl
    · split at step <;> cases step <;> rfl
  | count prev comparator =>
    cases comparator <;> cases step <;> rfl
  | point prev comparator =>
    simp only [addStep, Option.bind_eq_bind, Option.bind_eq_some_iff] at step
    obtain ⟨_, _, step⟩ := step
    cases step
    rfl
  | link prev comparator =>
    simp only [addStep, Option.bind_eq_bind, Option.bind_eq_some_iff] at step
    obtain ⟨node, _, linked, _, step⟩ := step
    cases step
    refine (congrArg (Option.map _) (if_pos rfl)).trans ?_
    split_ifs <;> rfl
  | clearAgain =>
    simp only [addStep, Option.bind_eq_bind, Option.bind_eq_some_iff] at step
    obtain ⟨_, _, step⟩ := step
    cases step
    rfl
  | _ => cases step

theorem removeStep_leads (step : removeStep state key index pc = some (next, after, event)) :
    (pc.phase (.remove key)).Leads (event.map .commit) (after.phase (.remove key)) := by
  cases pc with
  | readBucket =>
    cases step
    rfl
  | seek prev current =>
    cases current with
    | none =>
      cases step
      exact congrArg (Option.map _) (if_pos rfl)
    | some current =>
      simp only [removeStep, Option.bind_eq_bind, Option.bind_eq_some_iff] at step
      obtain ⟨_, _, step⟩ := step
      split_ifs at step <;> cases step <;> rfl
  | unlink prev target =>
    simp only [removeStep, Option.bind_eq_bind, Option.bind_eq_some_iff] at step
    obtain ⟨_, _, _, _, step⟩ := step
    cases step
    exact congrArg (Option.map _) (if_pos rfl)
  | cut target =>
    simp only [removeStep, Option.bind_eq_bind, Option.bind_eq_some_iff] at step
    obtain ⟨_, _, step⟩ := step
    cases step
    rfl
  | put target =>
    simp only [removeStep, Option.bind_eq_bind, Option.bind_eq_some_iff] at step
    obtain ⟨_, _, step⟩ := step
    cases step
    rfl
  | uncount =>
    cases step
    rfl
  | _ => cases step

theorem getStep_leads (step : getStep state key refInc index pc = some (next, after, event)) :
    (pc.phase (.get key refInc)).Leads (event.map .commit) (after.phase (.get key refInc)) := by
  cases pc with
  | readBucket =>
    cases step
    rfl
  | seek prev current =>
    cases current with
    | none =>
      cases step
      exact congrArg (Option.map _) (if_pos rfl)
    | some current =>
      simp only [getStep, Option.bind_eq_bind, Option.bind_eq_some_iff] at step
      obtain ⟨_, _, step⟩ := step
      split_ifs at step
      · cases step
        rfl
      · cases step
        exact congrArg (Option.map _) (if_pos rfl)
      · cases step
        rfl
  | reference target =>
    simp only [getStep, Option.bind_eq_bind, Option.bind_eq_some_iff] at step
    obtain ⟨_, _, step⟩ := step
    cases step
    exact congrArg (Option.map _) (if_pos rfl)
  | _ => cases step

theorem bucketStep_leads (step : bucketStep state index pc call = some (next, after, event)) :
    (pc.phase call).Leads (event.map .commit) (after.phase call) := by
  cases call with
  | add element => exact addStep_leads step
  | remove key => exact removeStep_leads step
  | get key refInc => exact getStep_leads step
  | copyAllKeys => cases step

end Phases

section Threads

variable {Thread : Type} [DecidableEq Thread] {world next : ThreadsWorld Thread} {thread : Thread}
  {action : Option HtableAction} {kind : KeyKind} {htable : StripedHtable}
  {trace : List (Thread × HtableAction)}

/-- What `step` does under the lock of a bucket. -/
theorem step_inBucket {call : HtableCall} {bucketIndex lockIndex : Nat}
    {pc : BucketPc}
    (here : world.pc thread = .inBucket call bucketIndex lockIndex pc)
    (inCall : ∀ answer, pc ≠ .unlock answer) :
    world.step thread = (bucketStep world.state bucketIndex pc call).map fun (state, after, event) =>
      ({ world with state }.goto thread (.inBucket call bucketIndex lockIndex after),
        event.map HtableAction.commit) := by
  rw [ThreadsWorld.step, here, Option.map_eq_bind]
  cases pc with
  | unlock answer => exact absurd rfl (inCall answer)
  | _ => rfl

/-- A statement moves its own thread, by what is observed. -/
theorem step_leads (taken : world.step thread = some (next, action)) :
    ∃ after, next.pc = Function.update world.pc thread after ∧
      (world.pc thread).phase.Leads action after.phase := by
  cases here : world.pc thread with
  | idle => simp [ThreadsWorld.step, here] at taken
  | loadCount element =>
    simp only [ThreadsWorld.step, here, Option.some.injEq, Prod.mk.injEq] at taken
    obtain ⟨rfl, rfl⟩ := taken
    exact ⟨_, rfl, rfl⟩
  | loadThres element elementCount =>
    simp only [ThreadsWorld.step, here] at taken
    split_ifs at taken <;> cases taken <;> exact ⟨_, rfl, rfl⟩
  | tryWrlock element =>
    simp only [ThreadsWorld.step, here] at taken
    split at taken <;> cases taken <;> exact ⟨_, rfl, rfl⟩
  | resize element =>
    simp only [ThreadsWorld.step, here, Option.bind_eq_bind, Option.bind_eq_some_iff] at taken
    obtain ⟨_, _, taken⟩ := taken
    cases taken
    exact ⟨_, rfl, rfl⟩
  | unlockResized element =>
    simp only [ThreadsWorld.step, here, Option.some.injEq, Prod.mk.injEq] at taken
    obtain ⟨rfl, rfl⟩ := taken
    exact ⟨_, rfl, rfl⟩
  | rdlock call =>
    simp only [ThreadsWorld.step, here, Option.bind_eq_bind, Option.bind_eq_some_iff] at taken
    obtain ⟨_, _, taken⟩ := taken
    cases taken
    refine ⟨_, rfl, ?_⟩
    split_ifs with copies
    · rw [copies]
      rfl
    · rfl
  | hash call =>
    simp only [ThreadsWorld.step, here, Option.bind_eq_bind, Option.bind_eq_some_iff] at taken
    obtain ⟨_, _, _, _, _, _, taken⟩ := taken
    cases taken
    exact ⟨_, rfl, rfl⟩
  | lockBucket call bucketIndex lockIndex =>
    simp only [ThreadsWorld.step, here, Option.bind_eq_bind, Option.bind_eq_some_iff] at taken
    obtain ⟨_, _, taken⟩ := taken
    cases taken
    refine ⟨_, rfl, ?_⟩
    cases call <;> rfl
  | inBucket call bucketIndex lockIndex pc =>
    by_cases inCall : ∀ answer, pc ≠ .unlock answer
    · rw [step_inBucket here inCall, Option.map_eq_some_iff] at taken
      obtain ⟨⟨state, after, event⟩, step, taken⟩ := taken
      cases taken
      exact ⟨_, rfl, bucketStep_leads step⟩
    · push Not at inCall
      obtain ⟨answer, rfl⟩ := inCall
      simp only [ThreadsWorld.step, here, Option.some.injEq, Prod.mk.injEq] at taken
      obtain ⟨rfl, rfl⟩ := taken
      exact ⟨_, rfl, rfl⟩
  | copyStart =>
    simp only [ThreadsWorld.step, here] at taken
    split_ifs at taken <;> cases taken <;> exact ⟨_, rfl, rfl⟩
  | copyLock i listed =>
    simp only [ThreadsWorld.step, here] at taken
    split_ifs at taken
    · simp only [Option.bind_eq_bind, Option.bind_eq_some_iff] at taken
      obtain ⟨_, _, taken⟩ := taken
      cases taken
      exact ⟨_, rfl, rfl⟩
    · cases taken
      exact ⟨_, rfl, rfl⟩
  | copyBucket i j listed =>
    simp only [ThreadsWorld.step, here] at taken
    split_ifs at taken
    · split at taken <;> cases taken <;> exact ⟨_, rfl, rfl⟩
    · cases taken
      exact ⟨_, rfl, rfl⟩
  | copyNode i j iteratorNode listed =>
    simp only [ThreadsWorld.step, here, Option.bind_eq_bind, Option.bind_eq_some_iff] at taken
    obtain ⟨_, _, taken⟩ := taken
    split at taken <;> cases taken <;> exact ⟨_, rfl, rfl⟩
  | copyUnlock i listed =>
    simp only [ThreadsWorld.step, here, Option.some.injEq, Prod.mk.injEq] at taken
    obtain ⟨rfl, rfl⟩ := taken
    exact ⟨_, rfl, rfl⟩
  | unlockTable call answer =>
    simp only [ThreadsWorld.step, here, Option.some.injEq, Prod.mk.injEq] at taken
    obtain ⟨rfl, rfl⟩ := taken
    exact ⟨_, rfl, rfl⟩
  | answering call answer =>
    simp only [ThreadsWorld.step, here, Option.some.injEq, Prod.mk.injEq] at taken
    obtain ⟨rfl, rfl⟩ := taken
    refine ⟨_, rfl, ?_⟩
    show CallPhase.observe (.returning call answer) (.answer answer) = some .idle
    unfold CallPhase.returning
    split
    · rfl
    · exact if_pos rfl

/-- How far the calls of a thread have come behind what was observed of it. -/
def phaseAfter (thread : Thread) (trace : List (Thread × HtableAction)) : Option CallPhase :=
  (trace.filter (·.1 = thread)).foldlM (fun phase (_, action) => phase.observe action) .idle

theorem phaseAfter_append (trace more : List (Thread × HtableAction)) :
    phaseAfter thread (trace ++ more) = (phaseAfter thread trace).bind fun phase =>
      (more.filter (·.1 = thread)).foldlM (fun phase (_, action) => phase.observe action) phase := by
  rw [phaseAfter, List.filter_append, List.foldlM_append]
  rfl

/-- What is observed of a thread leads it from phase to phase. -/
theorem phaseAfter_leads {phase after : CallPhase} (before : phaseAfter thread trace = some phase)
    (leads : phase.Leads action after) :
    phaseAfter thread (trace ++ (action.map fun action => (thread, action)).toList) = some after := by
  rw [phaseAfter_append, before]
  cases action with
  | none => exact congrArg some leads.symm
  | some action => simpa [CallPhase.Leads] using leads

/-- What is observed of another thread does not. -/
theorem phaseAfter_other {other : Thread} (different : other ≠ thread) :
    phaseAfter thread (trace ++ (action.map fun action => (other, action)).toList) =
      phaseAfter thread trace := by
  rw [phaseAfter_append]
  cases action with
  | none => simp
  | some action => simp [different]

/-- Every thread goes through the phases of its calls in turn. -/
theorem ThreadsRun.phases (run : ThreadsRun kind (unusedTable htable) trace world)
    (thread : Thread) : phaseAfter thread trace = some (world.pc thread).phase := by
  induction run with
  | start => rfl
  | create element node _ dead isValid inductionHypothesis => exact inductionHypothesis
  | @call trace world caller call _ ready callable inductionHypothesis =>
    show _ = some (Function.update world.pc caller (ThreadsWorld.entry call) thread).phase
    by_cases same : caller = thread
    · subst same
      have leads : (world.pc caller).phase.Leads (some (.call call))
          (ThreadsWorld.entry call).phase := by
        rw [ready]
        cases call <;> rfl
      rw [Function.update_self]
      exact phaseAfter_leads inductionHypothesis leads
    · rw [Function.update_of_ne (Ne.symm same)]
      exact (@phaseAfter_other _ _ _ (some (.call call)) trace _ same).trans inductionHypothesis
  | step taker _ few taken inductionHypothesis =>
    obtain ⟨after, goes, leads⟩ := step_leads taken
    rw [goes]
    by_cases same : taker = thread
    · subst same
      rw [Function.update_self]
      exact phaseAfter_leads inductionHypothesis leads
    · rw [Function.update_of_ne (Ne.symm same), phaseAfter_other same]
      exact inductionHypothesis

theorem CallPhase.eq_idle_of_call {phase after : CallPhase} {call : HtableCall}
    (leads : phase.observe (.call call) = some after) : phase = .idle := by
  cases phase with
  | idle => rfl
  | called call => cases call <;> cases leads
  | committed call answer => cases leads

theorem CallPhase.returning_ne_idle (call : HtableCall) (answer : HtableAnswer) :
    CallPhase.returning call answer ≠ .idle := by
  unfold CallPhase.returning
  split <;> exact CallPhase.noConfusion

/-- Only who is in no call is in no phase of one. -/
theorem HtablePc.phase_eq_idle {pc : HtablePc} : pc.phase = .idle ↔ pc = .idle := by
  cases pc with
  | idle => exact iff_of_true rfl rfl
  | inBucket call bucketIndex lockIndex pc =>
    refine iff_of_false ?_ HtablePc.noConfusion
    cases pc with
    | unlock answer => exact CallPhase.returning_ne_idle call answer
    | _ => exact CallPhase.noConfusion
  | unlockTable call answer =>
    exact iff_of_false (CallPhase.returning_ne_idle call answer) HtablePc.noConfusion
  | answering call answer =>
    exact iff_of_false (CallPhase.returning_ne_idle call answer) HtablePc.noConfusion
  | _ => exact iff_of_false CallPhase.noConfusion HtablePc.noConfusion

/-- No statement begins a call. -/
theorem step_not_call (taken : world.step thread = some (next, action)) (call : HtableCall) :
    action ≠ some (.call call) := by
  rintro rfl
  obtain ⟨after, -, leads⟩ := step_leads taken
  have isIdle := HtablePc.phase_eq_idle.mp (CallPhase.eq_idle_of_call leads)
  rw [ThreadsWorld.step, isIdle] at taken
  cases taken

/-- An answer is given behind all statements of a call. -/
theorem step_answers {answer : HtableAnswer}
    (taken : world.step thread = some (next, some (.answer answer))) :
    ∃ call, world.pc thread = .answering call answer := by
  cases here : world.pc thread with
  | answering call returned =>
    simp only [ThreadsWorld.step, here, Option.some.injEq, Prod.mk.injEq,
      HtableAction.answer.injEq] at taken
    exact ⟨call, by rw [taken.2]⟩
  | inBucket call bucketIndex lockIndex pc =>
    by_cases inCall : ∀ answer, pc ≠ .unlock answer
    · rw [step_inBucket here inCall, Option.map_eq_some_iff] at taken
      obtain ⟨⟨state, after, event⟩, -, taken⟩ := taken
      cases event <;> cases taken
    · push Not at inCall
      obtain ⟨answer, rfl⟩ := inCall
      simp [ThreadsWorld.step, here] at taken
  | tryWrlock element =>
    simp only [ThreadsWorld.step, here] at taken
    split at taken <;> cases taken
  | loadThres element elementCount =>
    simp only [ThreadsWorld.step, here] at taken
    split_ifs at taken <;> cases taken
  | copyStart =>
    simp only [ThreadsWorld.step, here] at taken
    split_ifs at taken <;> cases taken
  | copyLock i listed =>
    simp only [ThreadsWorld.step, here] at taken
    split_ifs at taken
    · simp [Option.bind_eq_some_iff] at taken
    · cases taken
  | copyBucket i j listed =>
    simp only [ThreadsWorld.step, here] at taken
    split_ifs at taken
    · split at taken <;> cases taken
    · cases taken
  | copyNode i j iteratorNode listed =>
    simp only [ThreadsWorld.step, here, Option.bind_eq_bind, Option.bind_eq_some_iff] at taken
    obtain ⟨node, -, taken⟩ := taken
    split at taken <;> cases taken
  | _ => simp [ThreadsWorld.step, here, Option.bind_eq_some_iff] at taken

end Threads

end Lwmsg
