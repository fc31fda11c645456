/-
This file models the intrusive list of `server/htable.c`, in which the workers keep
the clients that did not authenticate yet. It is linked through the `next` of a table
node, the same one a bucket of the hash table is linked through, so its rules say
which of these links an operation writes.
-/

import Lwmsg.SinglyLinked

namespace Lwmsg

open Pointers SinglyLinked

/-- The links of all nodes. -/
abbrev Links := Addr → Option Addr

/-- `intrusive_list_add`: the new `list->next`, and the links left. -/
def intrusiveListAdd (head : Option Addr) (next : Links) (nd : Addr) : Option Addr × Links :=
  let next := Function.update next nd none
  match head with
  | none => (some nd, next)
  | some first => (some nd, Function.update next nd (some first))

/-- The loop of `intrusive_list_remove`: the pointers `prev` and `curr` it stops with. The fuel bounds
the number of its turns, and running out of it is a failure. -/
def intrusiveListSeek (next : Links) (nd : Addr) :
    Nat → Option Addr → Option Addr → Option (Option Addr × Option Addr)
  | 0, _, _ => none
  | _ + 1, prev, none => some (prev, none)
  | fuel + 1, prev, some curr =>
    if nd = curr then some (prev, some curr)
    else intrusiveListSeek next nd fuel (some curr) (next curr)

/-- `intrusive_list_remove`. -/
def intrusiveListRemove (fuel : Nat) (head : Option Addr) (next : Links) (nd : Addr) :
    Option (Option Addr × Links) :=
  match head with
  | none => some (head, next)
  | some first => do
    let (prev, curr) ← intrusiveListSeek next nd fuel none (some first)
    match curr with
    | none => return (head, next)
    | some _ =>
      match prev with
      | none => return (next nd, Function.update next nd none)
      | some prev => return (head, Function.update (Function.update next prev (next nd)) nd none)

section List

variable {next : Links} {head : Option Addr} {addrs before after : List Addr} {nd : Addr}

/-- An added node is the first one, and no other link is written. -/
theorem intrusiveListAdd_path (path : Path next head addrs none) (outside : nd ∉ addrs) :
    Path (intrusiveListAdd head next nd).2 (intrusiveListAdd head next nd).1 (nd :: addrs) none ∧
      ∀ addr, addr ≠ nd → (intrusiveListAdd head next nd).2 addr = next addr := by
  have apart : ∀ addr ∈ addrs, addr ≠ nd := by
    rintro addr member rfl
    exact outside member
  cases head with
  | none =>
    refine ⟨⟨rfl, ?_⟩, fun addr different => Function.update_of_ne different _ _⟩
    simp only [intrusiveListAdd, Function.update_self]
    exact path.congr fun addr member => Function.update_of_ne (apart addr member) _ _
  | some first =>
    have others (addr : Addr) (different : addr ≠ nd) :
        Function.update (Function.update next nd none) nd (some first) addr = next addr := by
      rw [Function.update_of_ne different, Function.update_of_ne different]
    refine ⟨⟨rfl, ?_⟩, others⟩
    simp only [intrusiveListAdd, Function.update_self]
    exact path.congr fun addr member => others addr (apart addr member)

/-- The loop stops at the node, with the last of those in front of it, or behind the list. -/
theorem intrusiveListSeek_spec {start prev : Option Addr} {fuel : Nat}
    (path : Path next start addrs none) (enough : addrs.length < fuel) :
    (nd ∉ addrs ∧ intrusiveListSeek next nd fuel prev start =
        some (((prev.toList ++ addrs).getLast?), none)) ∨
      ∃ before after, addrs = before ++ nd :: after ∧ nd ∉ before ∧
        intrusiveListSeek next nd fuel prev start =
          some ((prev.toList ++ before).getLast?, some nd) := by
  induction addrs generalizing start prev fuel with
  | nil =>
    obtain ⟨fuel, rfl⟩ : ∃ more, fuel = more + 1 := ⟨fuel - 1, by simp at enough; omega⟩
    obtain rfl : start = none := path
    refine .inl ⟨by simp, ?_⟩
    cases prev <;> rfl
  | cons addr addrs inductionHypothesis =>
    obtain ⟨fuel, rfl⟩ : ∃ more, fuel = more + 1 := ⟨fuel - 1, by simp at enough; omega⟩
    obtain ⟨rfl, rest⟩ := path
    rw [intrusiveListSeek]
    by_cases here : nd = addr
    · subst here
      rw [if_pos rfl]
      refine .inr ⟨[], addrs, rfl, by simp, ?_⟩
      cases prev <;> rfl
    · rw [if_neg here]
      have last (more : List Addr) : ((some addr).toList ++ more).getLast? =
          (prev.toList ++ addr :: more).getLast? := by
        cases prev <;> simp
      rcases @inductionHypothesis _ (some addr) fuel rest (by simpa using enough) with
        ⟨absent, seek⟩ | ⟨before, after, rfl, absent, seek⟩
      · refine .inl ⟨by simp [here, absent], ?_⟩
        rw [seek, last]
      · refine .inr ⟨addr :: before, after, rfl, by simp [here, absent], ?_⟩
        rw [seek, last]

/-- A node in the list is unlinked, one that is not is left alone, and only links of the list are
written. -/
theorem intrusiveListRemove_path {fuel : Nat} (path : Path next head addrs none)
    (distinct : addrs.Nodup) (enough : addrs.length < fuel) :
    ∃ newHead newNext, intrusiveListRemove fuel head next nd = some (newHead, newNext) ∧
      Path newNext newHead (addrs.erase nd) none ∧
      (∀ addr, addr ∉ addrs → newNext addr = next addr) ∧
      (nd ∉ addrs → newHead = head ∧ newNext = next) := by
  cases head with
  | none =>
    obtain rfl : addrs = [] := List.head?_eq_none_iff.mp path.start_eq.symm
    exact ⟨none, next, rfl, rfl, fun _ _ => rfl, fun _ => ⟨rfl, rfl⟩⟩
  | some first =>
    rw [intrusiveListRemove]
    rcases @intrusiveListSeek_spec next addrs nd (some first) none fuel path enough with
      ⟨absent, seek⟩ | ⟨before, after, rfl, absent, seek⟩
    · refine ⟨some first, next, by rw [seek]; rfl, ?_, fun _ _ => rfl, fun _ => ⟨rfl, rfl⟩⟩
      rw [List.erase_of_not_mem absent]
      exact path
    · have notAfter : nd ∉ after := (List.nodup_cons.mp (List.nodup_append.mp distinct).2.1).1
      have erased : (before ++ nd :: after).erase nd = before ++ after := by
        rw [List.erase_append_right _ absent, List.erase_cons_head]
      have distinctBefore : before.Nodup := (List.nodup_append.mp distinct).1
      have apart : ∀ addr ∈ after, addr ∉ before := fun addr member alsoBefore =>
        (List.nodup_append.mp distinct).2.2 addr alsoBefore addr
          (List.mem_cons_of_mem nd member) rfl
      obtain ⟨_, _, _, tail⟩ := path_append.mp path
      have unlinked := @Path.replaceTail next before (nd :: after) (fun _ => some first) 0 after
        (next nd) path distinctBefore tail apart
      have inside : ∀ addr ∈ before ++ after, addr ≠ nd := by
        rintro addr member rfl
        rcases List.mem_append.mp member with front | back
        · exact absent front
        · exact notAfter back
      refine ⟨SinglyLinked.setHead (fun _ => some first) 0 before.getLast? (next nd) 0,
        Function.update (SinglyLinked.setLink next before.getLast? (next nd)) nd none, ?_, ?_, ?_,
        fun outside => absurd (List.mem_append_right before List.mem_cons_self) outside⟩
      · rw [seek]
        cases last : before.getLast? with
        | none => simp [last, SinglyLinked.setHead, SinglyLinked.setLink]
        | some prev => simp [last, SinglyLinked.setHead, SinglyLinked.setLink]
      · rw [erased]
        exact unlinked.congr fun addr member => Function.update_of_ne (inside addr member) _ _
      · intro addr outside
        have different : addr ≠ nd := by
          rintro rfl
          exact outside (List.mem_append_right before List.mem_cons_self)
        rw [Function.update_of_ne different]
        exact setLink_of_not_mem _ _ fun member => outside (List.mem_append_left _ member)

end List

end Lwmsg
