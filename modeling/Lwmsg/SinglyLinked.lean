/-
This file is a library of singly linked chains. The links are a map from an address to the pointer
in its `next` field, and a chain is described by the list of its addresses, front to back.

The rules are about a family of chains whose heads lie in an array, such as the buckets of a hash
table. Unlinking an address and linking it in, both at any place, only ever write one link of the
chain: the head of the family or the `next` of the address in front.
-/

import Lwmsg.Memory
import Mathlib.Data.List.Nodup

namespace SinglyLinked

open Pointers

/-! ### Paths -/

/-- The links lead from one pointer to another through a list of addresses. -/
def Path (link : Addr → Option Addr) : Option Addr → List Addr → Option Addr → Prop
  | start, [], finish => start = finish
  | start, addr :: addrs, finish => start = some addr ∧ Path link (link addr) addrs finish

variable {link other : Addr → Option Addr} {start middle finish : Option Addr}
  {before after : List Addr} {addr : Addr}

theorem path_append :
    Path link start (before ++ after) finish ↔
      ∃ middle, Path link start before middle ∧ Path link middle after finish := by
  induction before generalizing start with
  | nil => simp [Path]
  | cons addr before inductionHypothesis =>
    simp only [List.cons_append, Path, inductionHypothesis, and_assoc, exists_and_left]

/-- The pointer in front of the rest of a chain is the address the rest starts with. -/
theorem Path.start_eq (path : Path link start after none) : start = after.head? := by
  cases after with
  | nil => exact path
  | cons addr after => exact path.1

theorem Path.link_eq (path : Path link start (before ++ addr :: after) none) :
    link addr = after.head? := by
  obtain ⟨_, _, tail⟩ := path_append.mp path
  exact Path.start_eq tail.2

/-- The links lead along one path only. -/
theorem Path.unique {others : List Addr} (path : Path link start before none)
    (another : Path link start others none) : before = others := by
  induction before generalizing start others with
  | nil =>
    cases others with
    | nil => rfl
    | cons addr others => cases path.symm.trans another.1
  | cons addr before inductionHypothesis =>
    cases others with
    | nil => cases path.1.symm.trans another
    | cons first others =>
      obtain rfl : addr = first := Option.some.inj (path.1.symm.trans another.1)
      rw [inductionHypothesis path.2 another.2]

/-- Only the links of the addresses on a path matter. -/
theorem Path.congr (path : Path link start before finish)
    (same : ∀ addr ∈ before, other addr = link addr) : Path other start before finish := by
  induction before generalizing start with
  | nil => exact path
  | cons addr before inductionHypothesis =>
    refine ⟨path.1, ?_⟩
    rw [same addr List.mem_cons_self]
    exact inductionHypothesis path.2 fun addr member => same addr (List.mem_cons_of_mem _ member)

/-! ### One link of a chain -/

/-- `if (!prev) heads[index] = target; else prev->next = target;` seen on the heads. -/
def setHead (heads : Nat → Option Addr) (index : Nat) (prev target : Option Addr) :
    Nat → Option Addr :=
  match prev with
  | none => Function.update heads index target
  | some _ => heads

/-- `if (!prev) heads[index] = target; else prev->next = target;` seen on the links. -/
def setLink (link : Addr → Option Addr) (prev target : Option Addr) : Addr → Option Addr :=
  match prev with
  | none => link
  | some prev => Function.update link prev target

theorem setHead_of_ne {heads : Nat → Option Addr} {index another : Nat} (prev target : Option Addr)
    (different : another ≠ index) : setHead heads index prev target another = heads another := by
  cases prev with
  | none => exact Function.update_of_ne different _ _
  | some _ => rfl

theorem setHead_comm (heads : Nat → Option Addr) {index another : Nat} (different : index ≠ another)
    (prev target anotherPrev anotherTarget : Option Addr) :
    setHead (setHead heads index prev target) another anotherPrev anotherTarget =
      setHead (setHead heads another anotherPrev anotherTarget) index prev target := by
  cases prev <;> cases anotherPrev
  · exact Function.update_comm different _ _ _
  · rfl
  · rfl
  · rfl

theorem setLink_of_not_mem (link : Addr → Option Addr) (target : Option Addr)
    (outside : addr ∉ before) : setLink link before.getLast? target addr = link addr := by
  cases last : before.getLast? with
  | none => rfl
  | some prev =>
    refine Function.update_of_ne ?_ _ _
    rintro rfl
    exact outside (List.mem_of_getLast? last)

/-- Writing the link behind the front part of a chain replaces the rest of it. -/
theorem Path.replaceTail {heads : Nat → Option Addr} {index : Nat} {rest : List Addr}
    {target : Option Addr} (path : Path link (heads index) (before ++ after) none)
    (distinct : before.Nodup) (tail : Path link target rest none)
    (apart : ∀ addr ∈ rest, addr ∉ before) :
    Path (setLink link before.getLast? target) (setHead heads index before.getLast? target index)
      (before ++ rest) none := by
  rcases List.eq_nil_or_concat' before with rfl | ⟨front, last, rfl⟩
  · simpa [setLink, setHead] using tail
  · have distinctLast : last ∉ front := fun member =>
      (List.nodup_append.mp distinct).2.2 last member last (List.mem_singleton_self last) rfl
    rw [List.append_assoc] at path
    obtain ⟨middle, frontPath, lastPath⟩ := path_append.mp path
    rw [List.getLast?_concat, List.append_assoc]
    refine path_append.mpr ⟨middle, frontPath.congr fun addr member => ?_, lastPath.1, ?_⟩
    · refine Function.update_of_ne ?_ _ _
      rintro rfl
      exact distinctLast member
    · rw [setLink, Function.update_self]
      refine tail.congr fun addr member => Function.update_of_ne ?_ _ _
      rintro rfl
      exact apart addr member (List.mem_append_right _ (List.mem_singleton_self addr))

/-! ### Families of chains -/

/-- The heads below a count lead to disjoint chains. -/
structure Chains (link : Addr → Option Addr) (heads : Nat → Option Addr) (count : Nat)
    (lists : Nat → List Addr) : Prop where
  path : ∀ index < count, Path link (heads index) (lists index) none
  distinct : ∀ index < count, (lists index).Nodup
  apart : ∀ index < count, ∀ another < count, ∀ addr ∈ lists index, addr ∈ lists another →
    index = another

section Family

variable {heads : Nat → Option Addr} {count index : Nat} {lists : Nat → List Addr}

/-- The links of addresses outside the chains do not matter. -/
theorem Chains.congr (chains : Chains link heads count lists)
    (same : ∀ index < count, ∀ addr ∈ lists index, other addr = link addr) :
    Chains other heads count lists where
  path index inside := (chains.path index inside).congr (same index inside)
  distinct := chains.distinct
  apart := chains.apart

/-- A chain whose links before some address are written may only lose or gain addresses that are
outside the other chains. -/
theorem Chains.replaceTail (chains : Chains link heads count lists) (inside : index < count)
    (split : lists index = before ++ after) {rest : List Addr} {target : Option Addr}
    (tail : Path link target rest none) (distinct : (before ++ rest).Nodup)
    (outside : ∀ another < count, another ≠ index → ∀ addr ∈ rest, addr ∉ lists another) :
    Chains (setLink link before.getLast? target) (setHead heads index before.getLast? target) count
      (Function.update lists index (before ++ rest)) := by
  have beforeOutside {another : Nat} (anotherInside : another < count) (different : another ≠ index)
      (addr : Addr) (member : addr ∈ lists another) : addr ∉ before := fun alsoHere =>
    different (chains.apart another anotherInside index inside addr member
      (split ▸ List.mem_append_left _ alsoHere))
  constructor
  · intro another anotherInside
    by_cases same : another = index
    · subst same
      rw [Function.update_self]
      have path := chains.path another inside
      rw [split] at path
      exact path.replaceTail (List.nodup_append.mp distinct).1 tail fun addr member alsoHere =>
        (List.nodup_append.mp distinct).2.2 addr alsoHere addr member rfl
    · rw [Function.update_of_ne same, setHead_of_ne _ _ same]
      exact (chains.path another anotherInside).congr fun addr member =>
        setLink_of_not_mem link target (beforeOutside anotherInside same addr member)
  · intro another anotherInside
    by_cases same : another = index
    · subst same
      rwa [Function.update_self]
    · rw [Function.update_of_ne same]
      exact chains.distinct another anotherInside
  · have crossed {another : Nat} (anotherInside : another < count) (different : another ≠ index)
        (addr : Addr) (member : addr ∈ lists another) : addr ∉ before ++ rest := by
      rw [List.mem_append, not_or]
      exact ⟨beforeOutside anotherInside different addr member, fun inRest =>
        outside another anotherInside different addr inRest member⟩
    intro first firstInside second secondInside addr inFirst inSecond
    by_cases firstSame : first = index <;> by_cases secondSame : second = index
    · exact firstSame.trans secondSame.symm
    · subst firstSame
      rw [Function.update_self] at inFirst
      rw [Function.update_of_ne secondSame] at inSecond
      exact absurd inFirst (crossed secondInside secondSame addr inSecond)
    · subst secondSame
      rw [Function.update_self] at inSecond
      rw [Function.update_of_ne firstSame] at inFirst
      exact absurd inSecond (crossed firstInside firstSame addr inFirst)
    · rw [Function.update_of_ne firstSame] at inFirst
      rw [Function.update_of_ne secondSame] at inSecond
      exact chains.apart first firstInside second secondInside addr inFirst inSecond

/-- Unlinking an address from wherever it stands in its chain. -/
theorem Chains.unlink (chains : Chains link heads count lists) (inside : index < count)
    (split : lists index = before ++ addr :: after) :
    Chains (setLink link before.getLast? (link addr))
      (setHead heads index before.getLast? (link addr)) count
      (Function.update lists index (before ++ after)) := by
  have path := chains.path index inside
  have distinct := chains.distinct index inside
  rw [split] at path distinct
  obtain ⟨_, _, tail⟩ := path_append.mp path
  refine chains.replaceTail inside split tail.2
    (List.nodup_cons.mp (List.nodup_middle.mp distinct)).2 ?_
  intro another anotherInside different member inAfter inAnother
  exact different (chains.apart another anotherInside index inside member inAnother (by
    rw [split]
    exact List.mem_append_right _ (List.mem_cons_of_mem _ inAfter)))

/-- Linking in a fresh address at any place of a chain. -/
theorem Chains.insert (chains : Chains link heads count lists) (inside : index < count)
    (split : lists index = before ++ after)
    (fresh : ∀ another < count, addr ∉ lists another) :
    Chains (setLink (Function.update link addr after.head?) before.getLast? (some addr))
      (setHead heads index before.getLast? (some addr)) count
      (Function.update lists index (before ++ addr :: after)) := by
  have notHere : addr ∉ before ++ after := split ▸ fresh index inside
  have agree (another : Nat) (anotherInside : another < count) (member : Addr)
      (isMember : member ∈ lists another) :
      Function.update link addr after.head? member = link member := by
    refine Function.update_of_ne ?_ _ _
    rintro rfl
    exact fresh another anotherInside isMember
  have path := chains.path index inside
  rw [split] at path
  obtain ⟨_, _, tail⟩ := path_append.mp path
  obtain rfl := tail.start_eq
  refine (chains.congr agree).replaceTail inside split ⟨rfl, ?_⟩ ?_ ?_
  · rw [Function.update_self]
    refine tail.congr fun member inAfter => agree index inside member ?_
    rw [split]
    exact List.mem_append_right _ inAfter
  · rw [List.nodup_middle, List.nodup_cons]
    exact ⟨notHere, split ▸ chains.distinct index inside⟩
  · intro another anotherInside different member inRest inAnother
    rcases List.mem_cons.mp inRest with rfl | inAfter
    · exact fresh another anotherInside inAnother
    · exact different (chains.apart another anotherInside index inside member inAnother (by
        rw [split]
        exact List.mem_append_right _ inAfter))

end Family

end SinglyLinked
